import IoEdgeHub.Lib.Run
import Mathlib.Data.List.Nodup
import Mathlib.Logic.Function.Basic

/-!
# A server with one result register

Clients put commands into a bounded queue and wait until a counter of the server has moved; the
result is then in a register that all clients share. Nothing ties the counter or the register to
the client that waits. `Sound.own_result` says when the register holds its own result all the same:
while it waits, the server moves the counter for nobody else before its command is done, and writes
the register for nobody else after it (`Undisturbed`). `Alone` is what a discipline of the senders
(`Serial`) keeps, and it is enough for this.
-/

namespace Mailbox

/-- The server, its counter and its register; which commands move the one and write the other. -/
structure Server (σ ε κ τ ρ : Type*) where
  handle : σ → ε → κ → σ
  seq : σ → τ
  res : σ → ρ
  bumps : κ → Bool
  writes : κ → Bool
  seq_handle : ∀ s e k, bumps k = false → seq (handle s e k) = seq s
  res_handle : ∀ s e k, writes k = false → res (handle s e k) = res s
  bumps_of_writes : ∀ k, writes k = true → bumps k = true

/-- A command, numbered by when it was sent. -/
structure Job (κ : Type*) where
  id : ℕ
  cmd : κ
deriving DecidableEq

/-- A client waits for the counter to pass what it was when the job was sent. -/
structure Wait (κ τ : Type*) where
  seq : τ
  job : Job κ

/-- The server with its two lanes, the clients, and what came of the jobs that were handled. -/
structure Bus (σ κ τ ρ γ : Type*) where
  server : σ
  queue : List (Job κ)
  urgent : List (Job κ)
  sent : ℕ
  waits : γ → Option (Wait κ τ)
  done : List (Job κ × ρ)

/-- A client sends and waits; something is sent that nobody waits for; the server handles the next
job of a lane; a client sees the counter move, or gives up. -/
inductive Act (ε κ γ : Type*) where
  | send (c : γ) (k : κ)
  | post (k : κ)
  | urge (k : κ)
  | serve (e : ε)
  | serveUrgent (e : ε)
  | poll (c : γ)
  | timeout (c : γ)

section System

variable {σ ε κ τ ρ γ : Type*}

/-- Nothing has been sent. -/
def Bus.init (s : σ) : Bus σ κ τ ρ γ := ⟨s, [], [], 0, fun _ => none, []⟩

/-- A full queue drops the job. -/
def push (cap : ℕ) (queue : List (Job κ)) (j : Job κ) : List (Job κ) :=
  if queue.length < cap then queue ++ [j] else queue

namespace Bus

/-! ## Jobs -/

/-- The jobs that have not been handled. -/
def pending (b : Bus σ κ τ ρ γ) : List (Job κ) := b.queue ++ b.urgent

/-- A job was pushed into a lane, or dropped; in either case its number is used up. -/
structure Enqueued (b : Bus σ κ τ ρ γ) (k : κ) (b' : Bus σ κ τ ρ γ) : Prop where
  server : b'.server = b.server
  done : b'.done = b.done
  sent : b'.sent = b.sent + 1
  pending : b'.pending.Perm b.pending ∨ b'.pending.Perm (⟨b.sent, k⟩ :: b.pending)

theorem push_perm (cap : ℕ) (queue : List (Job κ)) (j : Job κ) :
    (push cap queue j).Perm queue ∨ (push cap queue j).Perm (j :: queue) := by
  unfold push
  split
  · exact .inr (List.perm_append_singleton j queue)
  · exact .inl (.refl _)

theorem enqueued_queue (b : Bus σ κ τ ρ γ) (cap : ℕ) (k : κ) :
    b.Enqueued k { b with queue := push cap b.queue ⟨b.sent, k⟩, sent := b.sent + 1 } := by
  refine ⟨rfl, rfl, rfl, ?_⟩
  rcases push_perm cap b.queue ⟨b.sent, k⟩ with dropped | pushed
  · exact .inl (dropped.append_right _)
  · exact .inr (pushed.append_right _)

theorem enqueued_urgent (b : Bus σ κ τ ρ γ) (cap : ℕ) (k : κ) :
    b.Enqueued k { b with urgent := push cap b.urgent ⟨b.sent, k⟩, sent := b.sent + 1 } := by
  refine ⟨rfl, rfl, rfl, ?_⟩
  rcases push_perm cap b.urgent ⟨b.sent, k⟩ with dropped | pushed
  · exact .inl (dropped.append_left _)
  · exact .inr ((pushed.append_left _).trans List.perm_middle)

variable (S : Server σ ε κ τ ρ)

/-- A job was taken out of its lane and handled. -/
structure Handled (b : Bus σ κ τ ρ γ) (e : ε) (j : Job κ) (b' : Bus σ κ τ ρ γ) : Prop where
  server : b'.server = S.handle b.server e j.cmd
  done : b'.done = b.done ++ [(j, S.res b'.server)]
  sent : b'.sent = b.sent
  pending : b.pending.Perm (j :: b'.pending)
  waits : b'.waits = b.waits

section Jobs

variable {S} {b b' : Bus σ κ τ ρ γ} {a : Act ε κ γ}

/-- A pending job was pending before, or has just been sent. -/
theorem Enqueued.mem {k : κ} {j : Job κ} (enqueued : b.Enqueued k b') (mem : j ∈ b'.pending) :
    j ∈ b.pending ∨ j = ⟨b.sent, k⟩ := by
  rcases enqueued.pending with dropped | pushed
  · exact .inl (dropped.mem_iff.1 mem)
  · exact (List.mem_cons.1 (pushed.mem_iff.1 mem)).symm

/-! ## Every job is handled once -/

/-- No number is used twice, by a waiting or a handled job. -/
structure Tidy (b : Bus σ κ τ ρ γ) : Prop where
  nodup : ((b.pending ++ b.done.map Prod.fst).map Job.id).Nodup
  below : ∀ j ∈ b.pending ++ b.done.map Prod.fst, j.id < b.sent

theorem tidy_init (s : σ) : (init s : Bus σ κ τ ρ γ).Tidy := ⟨List.nodup_nil, by simp [init, pending]⟩

theorem Tidy.enqueued {k : κ} (tidy : b.Tidy) (enqueued : b.Enqueued k b') : b'.Tidy := by
  rcases enqueued.pending with dropped | pushed
  · have same := dropped.append_right (b.done.map Prod.fst)
    refine ⟨?_, fun j mem => ?_⟩
    · rw [enqueued.done]
      exact (same.map Job.id).nodup_iff.2 tidy.nodup
    · rw [enqueued.done, same.mem_iff] at mem
      rw [enqueued.sent]
      exact Nat.lt_succ_of_lt (tidy.below j mem)
  · have same := pushed.append_right (b.done.map Prod.fst)
    refine ⟨?_, fun j mem => ?_⟩
    · rw [enqueued.done, (same.map Job.id).nodup_iff, List.cons_append, List.map_cons, List.nodup_cons]
      refine ⟨fun used => ?_, tidy.nodup⟩
      obtain ⟨j, mem, number⟩ := List.mem_map.1 used
      exact absurd (tidy.below j mem) (by rw [number]; exact Nat.lt_irrefl _)
    · rw [enqueued.done, same.mem_iff, List.cons_append, List.mem_cons] at mem
      rw [enqueued.sent]
      rcases mem with rfl | mem
      · exact Nat.lt_succ_self _
      · exact Nat.lt_succ_of_lt (tidy.below j mem)

theorem Tidy.handled {e : ε} {j : Job κ} (tidy : b.Tidy) (handled : b.Handled S e j b') : b'.Tidy := by
  have same : (b'.pending ++ b'.done.map Prod.fst).Perm (b.pending ++ b.done.map Prod.fst) := by
    rw [handled.done, List.map_append, ← List.append_assoc]
    refine (List.perm_append_singleton j _).trans ?_
    exact (handled.pending.append_right _).symm
  refine ⟨(same.map Job.id).nodup_iff.2 tidy.nodup, fun i mem => ?_⟩
  rw [handled.sent]
  exact tidy.below i (same.mem_iff.1 mem)

theorem Tidy.unique {j : Job κ} {r r' : ρ} (tidy : b.Tidy) (result : (j, r) ∈ b.done)
    (other : (j, r') ∈ b.done) : r = r' := by
  have nodup : (b.done.map fun d => d.1.id).Nodup := by
    have part := tidy.nodup
    rw [List.map_append, List.map_map] at part
    exact (List.nodup_append.1 part).2.1
  have same := List.inj_on_of_nodup_map nodup result other rfl
  exact congrArg Prod.snd same

/-! ## Reading one's own result -/

/-- A job that was executed. -/
def Executed (b : Bus σ κ τ ρ γ) (j : Job κ) : Prop := ∃ r, (j, r) ∈ b.done

/-- A client that waits to read the register. -/
def Reads (S : Server σ ε κ τ ρ) (b : Bus σ κ τ ρ γ) (w : Wait κ τ) : Prop :=
  ∃ c, b.waits c = some w ∧ S.writes w.job.cmd = true

/-- Handling the job takes no other client's answer away: it does not move the counter before that
client's own job has been handled, nor write the register after that. -/
def Spares (S : Server σ ε κ τ ρ) (b : Bus σ κ τ ρ γ) (j : Job κ) : Prop :=
  ∀ w, b.Reads S w → w.job ≠ j →
    (¬ b.Executed w.job → S.bumps j.cmd = false) ∧ (b.Executed w.job → S.writes j.cmd = false)

/-- The step handles only jobs that spare the others. -/
def Undisturbed (S : Server σ ε κ τ ρ) (b : Bus σ κ τ ρ γ) : Act ε κ γ → Prop
  | .serve _ => ∀ j, b.queue.head? = some j → b.Spares S j
  | .serveUrgent _ => ∀ j, b.urgent.head? = some j → b.Spares S j
  | _ => True

/-- Nothing has moved the counter since the job was sent, or the register holds its result. -/
def Safe (S : Server σ ε κ τ ρ) (b : Bus σ κ τ ρ γ) (w : Wait κ τ) : Prop :=
  S.seq b.server = w.seq ∧ ¬ b.Executed w.job ∨ (w.job, S.res b.server) ∈ b.done

theorem Safe.handled {e : ε} {j : Job κ} {w : Wait κ τ} (safe : b.Safe S w) (reads : b.Reads S w)
    (spares : b.Spares S j) (handled : b.Handled S e j b') : b'.Safe S w := by
  unfold Safe
  rw [handled.done]
  by_cases own : w.job = j
  · rw [own]
    exact .inr (List.mem_append_right _ List.mem_cons_self)
  · obtain ⟨quiet, keeps⟩ := spares w reads own
    rcases safe with ⟨unmoved, waiting⟩ | result
    · refine .inl ⟨?_, ?_⟩
      · rw [handled.server, S.seq_handle _ _ _ (quiet waiting), unmoved]
      · rintro ⟨r, mem⟩
        rw [handled.done, List.mem_append, List.mem_singleton] at mem
        rcases mem with mem | last
        · exact waiting ⟨r, mem⟩
        · exact own (congrArg Prod.fst last)
    · right
      rw [handled.server, S.res_handle _ _ _ (keeps ⟨_, result⟩)]
      exact List.mem_append_left _ result

/-- Every client that waits to read the register is safe. -/
structure Sound (S : Server σ ε κ τ ρ) (b : Bus σ κ τ ρ γ) : Prop where
  tidy : b.Tidy
  safe : ∀ w, b.Reads S w → b.Safe S w

theorem sound_init (s : σ) : (init s : Bus σ κ τ ρ γ).Sound S :=
  ⟨tidy_init s, by rintro w ⟨c, waits, -⟩; cases waits⟩

theorem safe_of_enqueued {k : κ} {w : Wait κ τ} (enqueued : b.Enqueued k b') (safe : b.Safe S w) : b'.Safe S w := by
  unfold Safe Executed
  rw [enqueued.server, enqueued.done]
  exact safe

/-- A client that sees the counter moved finds the result of its own job in the register. -/
theorem Sound.own_result [LT τ] [Std.Irrefl fun x y : τ => x < y] {w : Wait κ τ} (sound : b.Sound S)
    (reads : b.Reads S w) (moved : w.seq < S.seq b.server) (r : ρ) :
    (w.job, r) ∈ b.done ↔ r = S.res b.server := by
  have result : (w.job, S.res b.server) ∈ b.done := by
    rcases sound.safe w reads with ⟨unmoved, -⟩ | result
    · rw [unmoved] at moved
      exact absurd moved (Std.Irrefl.irrefl w.seq)
    · exact result
  constructor
  · intro mem
    exact sound.tidy.unique mem result
  · rintro rfl
    exact result

/-! ## One at a time -/

/-- The discipline of the senders: what moves the counter is not sent while a client waits to read
the register, and a client sends what it will read the result of only when nothing that moves the
counter is pending. -/
def Serial (S : Server σ ε κ τ ρ) (b : Bus σ κ τ ρ γ) : Act ε κ γ → Prop
  | .send _ k => (S.writes k = true → ∀ j ∈ b.pending, S.bumps j.cmd = false) ∧
      (S.bumps k = true → ∀ w, ¬ b.Reads S w)
  | .post k => S.bumps k = true → ∀ w, ¬ b.Reads S w
  | .urge k => S.bumps k = true → ∀ w, ¬ b.Reads S w
  | _ => True

/-- While a client waits to read the register, only its own job can move the counter. -/
def Alone (S : Server σ ε κ τ ρ) (b : Bus σ κ τ ρ γ) : Prop :=
  ∀ w, b.Reads S w → ∀ j ∈ b.pending, S.bumps j.cmd = true → j = w.job

theorem Alone.spares {j : Job κ} (alone : b.Alone S) (mem : j ∈ b.pending) : b.Spares S j := by
  intro w reads other
  have quiet : S.bumps j.cmd = false := by
    apply Bool.eq_false_iff.2
    intro bumps
    exact other (alone w reads j mem bumps).symm
  refine ⟨fun _ => quiet, fun _ => Bool.eq_false_iff.2 fun writes => ?_⟩
  exact absurd (S.bumps_of_writes _ writes) (by rw [quiet]; exact Bool.false_ne_true)

theorem Alone.undisturbed (alone : b.Alone S) : b.Undisturbed S a := by
  cases a with
  | serve e =>
    intro j head
    exact alone.spares (List.mem_append_left _ (List.mem_of_mem_head? head))
  | serveUrgent e =>
    intro j head
    exact alone.spares (List.mem_append_right _ (List.mem_of_mem_head? head))
  | _ => trivial

end Jobs

/-! ## Steps -/

variable [DecidableEq γ]

/-- The server handles a job that has been taken out of its lane. -/
def handled (b : Bus σ κ τ ρ γ) (e : ε) (j : Job κ) : Bus σ κ τ ρ γ :=
  { b with
    server := S.handle b.server e j.cmd
    done := b.done ++ [(j, S.res (S.handle b.server e j.cmd))] }

/-- A client begins or ends to wait. -/
def settle (b : Bus σ κ τ ρ γ) (c : γ) (w : Option (Wait κ τ)) : Bus σ κ τ ρ γ :=
  { b with waits := Function.update b.waits c w }

/-- One step; none when it cannot be taken. -/
def step [LT τ] [DecidableLT τ] (cap capUrgent : ℕ) (b : Bus σ κ τ ρ γ) :
    Act ε κ γ → Option (Bus σ κ τ ρ γ)
  | .send c k =>
    if (b.waits c).isNone then
      some ({ b with queue := push cap b.queue ⟨b.sent, k⟩, sent := b.sent + 1 }.settle c
        (some ⟨S.seq b.server, ⟨b.sent, k⟩⟩))
    else none
  | .post k => some { b with queue := push cap b.queue ⟨b.sent, k⟩, sent := b.sent + 1 }
  | .urge k => some { b with urgent := push capUrgent b.urgent ⟨b.sent, k⟩, sent := b.sent + 1 }
  | .serve e =>
    match b.queue with
    | [] => none
    | j :: rest => some ({ b with queue := rest }.handled S e j)
  | .serveUrgent e =>
    match b.urgent with
    | [] => none
    | j :: rest => some ({ b with urgent := rest }.handled S e j)
  | .poll c =>
    match b.waits c with
    | some w => if w.seq < S.seq b.server then some (b.settle c none) else none
    | none => none
  | .timeout c => if (b.waits c).isSome then some (b.settle c none) else none

/-! ## What a step can do -/

/-- What an act does to the bus. -/
inductive Change (b : Bus σ κ τ ρ γ) : Act ε κ γ → Bus σ κ τ ρ γ → Prop
  | sent {c k b'} (free : b.waits c = none) (enqueued : b.Enqueued k b')
      (waits : b'.waits = Function.update b.waits c (some ⟨S.seq b.server, ⟨b.sent, k⟩⟩)) : Change b (.send c k) b'
  | posted {a k b'} (act : a = .post k ∨ a = .urge k) (enqueued : b.Enqueued k b') (waits : b'.waits = b.waits) :
      Change b a b'
  | handled {a e j b'}
      (act : a = .serve e ∧ b.queue.head? = some j ∨ a = .serveUrgent e ∧ b.urgent.head? = some j)
      (handled : b.Handled S e j b') : Change b a b'
  | settled {a c} (act : a = .poll c ∨ a = .timeout c) : Change b a (b.settle c none)

variable {S} {b b' : Bus σ κ τ ρ γ} {a : Act ε κ γ}

theorem step_change [LT τ] [DecidableLT τ] {cap capUrgent : ℕ} (ran : b.step S cap capUrgent a = some b') :
    b.Change S a b' := by
  cases a with
  | send c k =>
    obtain ⟨free, ran⟩ := Option.ite_none_right_eq_some.1 ran
    cases ran
    have enqueued := b.enqueued_queue cap k
    exact .sent (Option.isNone_iff_eq_none.1 free) ⟨enqueued.1, enqueued.2, enqueued.3, enqueued.4⟩ rfl
  | post k =>
    cases ran
    exact .posted (.inl rfl) (b.enqueued_queue cap k) rfl
  | urge k =>
    cases ran
    exact .posted (.inr rfl) (b.enqueued_urgent capUrgent k) rfl
  | serve e =>
    cases lane : b.queue with
    | nil => simp [step, lane] at ran
    | cons j rest =>
      simp only [step, lane, Option.some.injEq] at ran
      subst ran
      exact .handled (.inl ⟨rfl, by rw [lane]; rfl⟩) ⟨rfl, rfl, rfl, by simp [pending, handled, lane], rfl⟩
  | serveUrgent e =>
    cases lane : b.urgent with
    | nil => simp [step, lane] at ran
    | cons j rest =>
      simp only [step, lane, Option.some.injEq] at ran
      subst ran
      refine .handled (.inr ⟨rfl, by rw [lane]; rfl⟩) ⟨rfl, rfl, rfl, ?_, rfl⟩
      rw [pending, lane]
      exact List.perm_middle
  | poll c =>
    cases waits : b.waits c with
    | none => simp [step, waits] at ran
    | some w =>
      simp only [step, waits, Option.ite_none_right_eq_some] at ran
      obtain ⟨-, ran⟩ := ran
      cases ran
      exact .settled (.inl rfl)
  | timeout c =>
    obtain ⟨-, ran⟩ := Option.ite_none_right_eq_some.1 ran
    cases ran
    exact .settled (.inr rfl)

theorem Tidy.change (tidy : b.Tidy) (change : b.Change S a b') : b'.Tidy := by
  cases change with
  | sent _ enqueued _ => exact tidy.enqueued enqueued
  | posted _ enqueued _ => exact tidy.enqueued enqueued
  | handled _ handled => exact tidy.handled handled
  | settled _ => exact ⟨tidy.nodup, tidy.below⟩

/-- Who still waits after another client has stopped was waiting before. -/
theorem waits_of_settle {c c' : γ} {w : Wait κ τ} (waits : (b.settle c' none).waits c = some w) :
    b.waits c = some w := by
  have waits : Function.update b.waits c' none c = some w := waits
  by_cases same : c = c'
  · subst same
    rw [Function.update_self] at waits
    cases waits
  · rwa [Function.update_of_ne same] at waits

theorem Sound.change (sound : b.Sound S) (meets : b.Undisturbed S a) (change : b.Change S a b') : b'.Sound S := by
  refine ⟨sound.tidy.change change, ?_⟩
  rintro w ⟨c, waits, writes⟩
  cases change with
  | sent free enqueued waits' =>
    rename_i c' k
    refine safe_of_enqueued enqueued ?_
    rw [waits'] at waits
    by_cases same : c = c'
    · -- the new client: its number is fresh, and it has just read the counter
      subst same
      rw [Function.update_self] at waits
      cases waits
      refine .inl ⟨rfl, ?_⟩
      rintro ⟨r, mem⟩
      have old := sound.tidy.below _ (List.mem_append_right _ (List.mem_map.2 ⟨_, mem, rfl⟩))
      exact absurd old (Nat.lt_irrefl _)
    · rw [Function.update_of_ne same] at waits
      exact sound.safe w ⟨c, waits, writes⟩
  | posted act enqueued waits' =>
    rw [waits'] at waits
    exact safe_of_enqueued enqueued (sound.safe w ⟨c, waits, writes⟩)
  | handled act handled =>
    rename_i e j
    rw [handled.waits] at waits
    have reads : b.Reads S w := ⟨c, waits, writes⟩
    have spares : b.Spares S j := by
      rcases act with ⟨rfl, head⟩ | ⟨rfl, head⟩ <;> exact meets j head
    exact (sound.safe w reads).handled reads spares handled
  | settled act =>
    exact sound.safe w ⟨c, waits_of_settle waits, writes⟩

theorem Alone.change (alone : b.Alone S) (meets : b.Serial S a) (change : b.Change S a b') : b'.Alone S := by
  rintro w ⟨c, waits, writes⟩ j mem bumps
  cases change with
  | sent free enqueued waits' =>
    rename_i c' k
    rw [waits'] at waits
    obtain ⟨nothing_pending, no_reader⟩ := meets
    by_cases same : c = c'
    · subst same
      rw [Function.update_self] at waits
      cases waits
      rcases enqueued.mem mem with old | new
      · exact absurd bumps (by rw [nothing_pending writes j old]; exact Bool.false_ne_true)
      · exact new
    · rw [Function.update_of_ne same] at waits
      rcases enqueued.mem mem with old | rfl
      · exact alone w ⟨c, waits, writes⟩ j old bumps
      · exact absurd ⟨c, waits, writes⟩ (no_reader bumps w)
  | posted act enqueued waits' =>
    rename_i k
    rw [waits'] at waits
    rcases enqueued.mem mem with old | rfl
    · exact alone w ⟨c, waits, writes⟩ j old bumps
    · have no_reader : ∀ w, ¬ b.Reads S w := by
        rcases act with rfl | rfl <;> exact meets bumps
      exact absurd ⟨c, waits, writes⟩ (no_reader w)
  | handled act handled =>
    rw [handled.waits] at waits
    exact alone w ⟨c, waits, writes⟩ j (handled.pending.mem_iff.2 (List.mem_cons_of_mem _ mem)) bumps
  | settled act =>
    exact alone w ⟨c, waits_of_settle waits, writes⟩ j mem bumps

end Bus

end System

end Mailbox
