import IoEdgeHub.Lib.Feed

/-!
# Requests from a bounded buffer

A server collects what it reads in a buffer of bounded capacity and after each read takes as many
requests from its front as are complete.  A read that does not fit is cut off.  `consume_recv` says
that for reads that fit, taking the requests after every read or after every single item is the same,
so that the cuts between the reads make no difference.
-/

namespace Buffered

open Feed (Out consume)

variable {α ε : Type*}

/-- What the front of a buffer holds: nothing complete yet, the last event of a connection, or one
after which the buffer is advanced. -/
inductive Turn (ε : Type*) where
  | wait
  | last (event : ε)
  | next (event : ε) (used : ℕ)

/-- A server's look at its buffer; what it takes from there is not empty. -/
structure Server (α ε : Type*) where
  turn : List α → Turn ε
  takes : ∀ {b e n}, turn b = .next e n → 0 < n ∧ n ≤ b.length

namespace Server

variable (S : Server α ε)

/-- Take requests until nothing complete is left. -/
def drain (b : List α) : Out (List α) ε :=
  match _turn : S.turn b with
  | .wait => ⟨b, [], true⟩
  | .last e => ⟨[], [e], false⟩
  | .next e n =>
    let rest := drain (b.drop n)
    { rest with emitted := e :: rest.emitted }
termination_by b.length
decreasing_by
  have := S.takes _turn
  simp only [List.length_drop]
  omega

/-- A read into a buffer for `cap` items, of which what does not fit is lost, and the requests it
completes. -/
def recv (cap : ℕ) (b data : List α) : Out (List α) ε := S.drain ((b ++ data).take cap)

/-- One read after the other. -/
def serve (cap : ℕ) (b : List α) (reads : List (List α)) : Option (Out (List α) ε) :=
  consume (fun b data => some (S.recv cap b data)) b reads

/-- What is complete stays what it is when more arrives, within the capacity. -/
def Stable (cap : ℕ) : Prop :=
  ∀ b more, S.turn b ≠ .wait → (b ++ more).length ≤ cap → S.turn (b ++ more) = S.turn b

/-- Each read is as `P` says, of the buffer it finds. -/
def Reads (cap : ℕ) (P : List α → List α → Prop) (b : List α) : List (List α) → Prop
  | [] => True
  | data :: reads =>
    P b data ∧ ((S.recv cap b data).alive = true → Reads cap P (S.recv cap b data).state reads)

instance decidableReads (cap : ℕ) (P : List α → List α → Prop) [∀ b data, Decidable (P b data)] :
    (b : List α) → (reads : List (List α)) → Decidable (S.Reads cap P b reads)
  | _, [] => isTrue trivial
  | b, data :: reads =>
    have := decidableReads cap P (S.recv cap b data).state reads
    inferInstanceAs (Decidable (P b data ∧ (_ → _)))

/-- The read is a single item, or it fits. -/
def Fits (cap : ℕ) (b data : List α) : Prop :=
  data.length = 1 ∨ data ≠ [] ∧ b.length + data.length ≤ cap

variable {S}

variable {reads : List (List α)} {cap : ℕ}

theorem Reads.mono {P Q : List α → List α → Prop} (weaker : ∀ b data, P b data → Q b data)
    {b : List α} (h : S.Reads cap P b reads) : S.Reads cap Q b reads := by
  induction reads generalizing b with
  | nil => trivial
  | cons data reads ih => exact ⟨weaker b data h.1, fun alive => ih (h.2 alive)⟩

theorem drain_last {b : List α} {e : ε} (turn : S.turn b = .last e) : S.drain b = ⟨[], [e], false⟩ := by
  rw [drain]
  split <;> simp_all

theorem drain_next {b : List α} {e : ε} {n : ℕ} (turn : S.turn b = .next e n) :
    S.drain b = { S.drain (b.drop n) with emitted := e :: (S.drain (b.drop n)).emitted } := by
  rw [drain]
  split <;> simp_all

theorem length_drain (b : List α) : (S.drain b).state.length ≤ b.length := by
  fun_induction S.drain b with
  | case1 b turn => rfl
  | case2 b e turn => simp
  | case3 b e n turn rest ih =>
    rw [List.length_drop] at ih
    exact ih.trans (Nat.sub_le _ _)

/-- The requests in the front of a buffer are the same with more behind them. -/
theorem drain_append (stable : S.Stable cap) {b more : List α} (room : (b ++ more).length ≤ cap) :
    some (S.drain (b ++ more)) = (S.drain b).andThen fun rest => some (S.drain (rest ++ more)) := by
  fun_induction S.drain b with
  | case1 b turn => rw [Feed.andThen_silent]
  | case2 b e turn =>
    have same := stable b more (by rw [turn]; nofun) room
    rw [drain_last (same.trans turn)]
    rfl
  | case3 b e n turn rest ih =>
    have shift : (b ++ more).drop n = b.drop n ++ more := List.drop_append_of_le_length (S.takes turn).2
    have shorter : (b.drop n ++ more).length ≤ cap := by
      simp only [List.length_append, List.length_drop] at room ⊢
      omega
    have same := stable b more (by rw [turn]; nofun) room
    rw [drain_next (same.trans turn), shift, Feed.andThen_cons, ← ih shorter, Option.map_some]

theorem recv_of_fits {b data : List α} (room : b.length + data.length ≤ cap) :
    S.recv cap b data = S.drain (b ++ data) := by
  rw [recv, List.take_of_length_le (by simpa using room)]

/-- A read that fits comes to the same as its items one by one. -/
theorem recv_eq_consume (stable : S.Stable cap) {b data : List α} (filled : data ≠ [])
    (room : b.length + data.length ≤ cap) :
    consume (fun b a => some (S.recv cap b [a])) b data = some (S.recv cap b data) := by
  induction data generalizing b with
  | nil => exact absurd rfl filled
  | cons a data ih =>
    by_cases single : data = []
    · rw [single, Feed.consume_singleton]
    · rw [List.length_cons] at room
      have first : S.recv cap b [a] = S.drain (b ++ [a]) := recv_of_fits (by simp; omega)
      have whole : S.recv cap b (a :: data) = S.drain ((b ++ [a]) ++ data) := by
        rw [recv_of_fits (by simpa using room), List.append_assoc]
        rfl
      have kept := length_drain (S := S) (b ++ [a])
      rw [List.length_append, List.length_singleton] at kept
      rw [consume, Option.bind_some, first, whole, drain_append stable (by simp; omega)]
      apply Feed.andThen_congr
      intro _
      have rest : (S.drain (b ++ [a])).state.length + data.length ≤ cap := by omega
      rw [ih single rest, recv_of_fits rest]

/-- Reads that all fit come to the same as their items one by one. -/
theorem serve_eq_consume (stable : S.Stable cap) {b : List α} (fits : S.Reads cap (Fits cap) b reads) :
    S.serve cap b reads = consume (fun b a => some (S.recv cap b [a])) b reads.flatten := by
  induction reads generalizing b with
  | nil => rfl
  | cons data reads ih =>
    obtain ⟨fit, rest⟩ := fits
    have first : consume (fun b a => some (S.recv cap b [a])) b data = some (S.recv cap b data) := by
      rcases fit with single | ⟨filled, room⟩
      · obtain ⟨a, rfl⟩ := List.length_eq_one_iff.1 single
        exact Feed.consume_singleton b a
      · exact recv_eq_consume stable filled room
    rw [serve, consume, Option.bind_some, List.flatten_cons, Feed.consume_append, first, Option.bind_some]
    apply Feed.andThen_congr
    intro alive
    exact ih (rest alive)

end Server

end Buffered
