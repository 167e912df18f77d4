import Carrier.Session.StreamWrite
import Carrier.Session.TcpCalls

/-! The loop of `reliable_handler_write` over the pseudo-TCP socket of its stream. Between two rounds the
lock is open: packets and the clock make of the socket what they do. -/
namespace Carrier.Session
open Carrier.Lib Carrier.Common

/-- The values of `errno.h` -/
def SocketError.errno : SocketError → ℕ
  | .ok => 0
  | .EINVAL => 22
  | .EMSGSIZE => 90
  | .EWOULDBLOCK => ewouldblock
  | .ENOTCONN => 107
  | .EPIPE => 32
  | .ECONNABORTED => 103
  | .ECONNRESET => 104
  | .ETIMEDOUT => 110

namespace PseudoTcpSocket

/-- What a round of the loop gets: the result of `pseudo_tcp_socket_send`, or its error. -/
def answer (E : TcpEnv) (s : PseudoTcpSocket) (data : Bytes) : Option SendAnswer :=
  (s.send E data).map (fun r => r.1.elim (.failed r.2.error.errno) .sent)

/-- What the rounds of the loop get from the socket as they find it, up to the round with nothing left
or with another error. -/
def answers (E : TcpEnv) : List PseudoTcpSocket → Bytes → List SendAnswer
  | [], _ => []
  | s :: found, data =>
    if data = [] then []
    else
      match s.answer E data with
      | none => []
      | some (.sent n) => .sent n :: answers E found (data.drop n)
      | some (.failed error) =>
        .failed error :: if error = ewouldblock then answers E found data else []

def taken (answers : List SendAnswer) : ℕ :=
  (answers.map (fun | .sent n => n | .failed _ => 0)).sum

variable {E : TcpEnv} {s : PseudoTcpSocket} {data : Bytes}

theorem writeCount_le (b : PseudoTcpFifo) (data : Bytes) : (b.write data).1 ≤ data.length := by
  change (b.writeOffset data 0).1 ≤ data.length
  unfold PseudoTcpFifo.writeOffset
  split_ifs
  · exact Nat.zero_le _
  · exact min_le_left _ _

theorem queue_le {s' : PseudoTcpSocket} {n : ℕ} (h : s.queue data FLAG_NONE = some (n, s')) :
    n ≤ data.length := by
  rw [queue_eq (.inl rfl)] at h
  cases h
  have hkept : (kept s data).length ≤ data.length := by
    rw [length_kept]
    exact min_le_right _ _
  exact (writeCount_le _ _).trans hkept

/-- As long as the connection is open, a round finds no room or gets rid of some of the data. -/
theorem answer_of_established (hstate : s.state = .established) {a : SendAnswer}
    (h : s.answer E data = some a) : a = .failed ewouldblock ∨ ∃ n ≤ data.length, a = .sent n := by
  obtain ⟨r, hr, rfl⟩ := Option.map_eq_some_iff.mp h
  unfold send at hr
  rw [if_neg (not_not.mpr hstate)] at hr
  split_ifs at hr with hfull
  · cases hr
    exact .inl rfl
  · obtain ⟨⟨n, s₁⟩, hqueue, hr⟩ := Option.bind_eq_some_iff.mp hr
    obtain ⟨s₂, -, hr⟩ := Option.bind_eq_some_iff.mp hr
    cases hr
    exact .inr ⟨n, queue_le hqueue, rfl⟩

/-- A loop that has got rid of everything, with the connection open in every round, is what the write of
the stream takes for granted. -/
theorem takes_of_established {found : List PseudoTcpSocket} (hopen : ∀ s ∈ found, s.state = .established)
    (h : taken (answers E found data) = data.length) :
    Stream.Takes (answers E found data) data.length := by
  induction found generalizing data with
  | nil =>
    have hlen : data.length = 0 := h.symm
    rw [hlen]
    exact trivial
  | cons s found ih =>
    have hrest := fun x hx => hopen x (List.mem_cons_of_mem s hx)
    cases data with
    | nil => exact trivial
    | cons b data =>
      rw [answers, if_neg (List.cons_ne_nil b data)] at h ⊢
      cases hanswer : s.answer E (b :: data) with
      | none =>
        rw [hanswer] at h
        cases h
      | some a =>
        rw [hanswer] at h
        obtain rfl | ⟨n, hle, rfl⟩ := answer_of_established (hopen s List.mem_cons_self) hanswer
        · exact ⟨rfl, ih hrest (by simpa [taken] using h)⟩
        · have hsum : n + taken (answers E found ((b :: data).drop n)) = (b :: data).length := h
          refine ⟨hle, ?_⟩
          have hlen : data.length + 1 - n = ((b :: data).drop n).length := by
            rw [List.length_drop]
            rfl
          rw [hlen]
          apply ih hrest
          rw [List.length_drop]
          omega

end PseudoTcpSocket

end Carrier.Session
