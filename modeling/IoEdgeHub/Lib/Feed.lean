import IoEdgeHub.Lib.Bytes
import Mathlib.Data.List.Induction

/-!
# Incremental parsers

A machine takes its input one item at a time, may emit something at each item and may stop. Input
arrives in chunks; `consumeChunks_eq` says that the cuts between them make no difference,
`consumeUntil_between` what difference they make to a caller that may give up after a chunk.
`consume_collect` is for a machine that fills a buffer, `consume_frames` lifts what one frame does to
a list of frames, `consume_trapped` follows a machine that can no longer emit anything.
-/

namespace Feed

variable {σ α ε φ : Type*}

/-- What a machine did with some input: the state it is left in, what it emitted, and whether it
takes more. -/
structure Out (σ ε : Type*) where
  state : σ
  emitted : List ε
  alive : Bool

/-- Go on from where `first` ended, unless the machine has stopped. -/
def Out.andThen (first : Out σ ε) (next : σ → Option (Out σ ε)) : Option (Out σ ε) :=
  if first.alive then
    (next first.state).map fun rest => { rest with emitted := first.emitted ++ rest.emitted }
  else some first

/-- Feed one run of input; `none` is a crash of the machine. -/
def consume (step : σ → α → Option (Out σ ε)) (s : σ) : List α → Option (Out σ ε)
  | [] => some ⟨s, [], true⟩
  | a :: input => (step s a).bind fun first => first.andThen fun s => consume step s input

/-- Feed the chunks one call after the other, up to the first call that stops the machine. -/
def consumeChunks (step : σ → α → Option (Out σ ε)) (s : σ) : List (List α) → Option (Out σ ε)
  | [] => some ⟨s, [], true⟩
  | c :: cs => (consume step s c).bind fun first => first.andThen fun s => consumeChunks step s cs

variable {step : σ → α → Option (Out σ ε)}

@[simp] theorem andThen_silent (s : σ) (next : σ → Option (Out σ ε)) :
    (⟨s, [], true⟩ : Out σ ε).andThen next = next s := by
  simp [Out.andThen]

theorem andThen_alive (s : σ) (es : List ε) (next : σ → Option (Out σ ε)) :
    (⟨s, es, true⟩ : Out σ ε).andThen next =
      (next s).map fun rest => { rest with emitted := es ++ rest.emitted } := rfl

theorem andThen_cons (first : Out σ ε) (e : ε) (next : σ → Option (Out σ ε)) :
    Out.andThen { first with emitted := e :: first.emitted } next =
      (first.andThen next).map fun rest => { rest with emitted := e :: rest.emitted } := by
  rcases first with ⟨s, es, _ | _⟩
  · rfl
  · rcases h : next s with _ | rest <;> simp [Out.andThen, h]

theorem andThen_congr {first : Out σ ε} {next next' : σ → Option (Out σ ε)}
    (same : first.alive = true → next first.state = next' first.state) :
    first.andThen next = first.andThen next' := by
  rcases first with ⟨s, es, _ | _⟩
  · rfl
  · rw [andThen_alive, andThen_alive, same rfl]

theorem andThen_assoc (first : Out σ ε) (next last : σ → Option (Out σ ε)) :
    ((first.andThen next).bind fun mid => mid.andThen last) =
      first.andThen fun s => (next s).bind fun mid => mid.andThen last := by
  rcases first with ⟨s, es, _ | _⟩
  · rfl
  · rw [andThen_alive, andThen_alive]
    rcases next s with _ | ⟨s', es', _ | _⟩
    · rfl
    · rfl
    · rcases h : last s' with _ | rest <;> simp [Out.andThen, h]

theorem consume_append (s : σ) (a b : List α) :
    consume step s (a ++ b) =
      (consume step s a).bind fun first => first.andThen fun s => consume step s b := by
  induction a generalizing s with
  | nil => simp [consume]
  | cons x a ih =>
    rw [List.cons_append, consume, consume, Option.bind_assoc]
    congr 1
    funext first
    rw [andThen_assoc]
    simp only [ih]

theorem consume_append_silent {s s' : σ} {a : List α} (silent : consume step s a = some ⟨s', [], true⟩)
    (b : List α) : consume step s (a ++ b) = consume step s' b := by
  rw [consume_append, silent, Option.bind_some, andThen_silent]

theorem consume_singleton (s : σ) (a : α) : consume step s [a] = step s a := by
  rw [consume]
  rcases step s a with _ | ⟨s', es, _ | _⟩
  · rfl
  · rfl
  · simp [consume, Out.andThen]

theorem consumeChunks_eq (s : σ) (cs : List (List α)) :
    consumeChunks step s cs = consume step s cs.flatten := by
  induction cs generalizing s with
  | nil => rfl
  | cons c cs ih => simp only [consumeChunks, List.flatten_cons, consume_append, ih]

/-- A machine that puts its first `n` items into a buffer, each at its place. -/
theorem consume_collect {β : Type*} {m n : ℕ} {fill : Vector β m → ℕ → σ} {place : ℕ → α → β}
    (each : ∀ v i a, i < n →
      ∃ _ : i < m, step (fill v i) a = some ⟨fill (v.set i (place i a)) (i + 1), [], true⟩)
    (v : Vector β m) {input : List α} (short : input.length ≤ n) :
    ∃ w : Vector β m, w.toList.take input.length = input.mapIdx place ∧
      consume step (fill v 0) input = some ⟨fill w input.length, [], true⟩ := by
  induction input using List.reverseRecOn with
  | nil => exact ⟨v, rfl, rfl⟩
  | append_singleton input a ih =>
    rw [List.length_append, List.length_singleton] at short ⊢
    obtain ⟨w, read, ran⟩ := ih (by omega)
    obtain ⟨room, last⟩ := each w input.length a (by omega)
    refine ⟨w.set input.length (place input.length a), ?_, ?_⟩
    · rw [Bytes.take_set, read, List.mapIdx_concat]
    · rw [consume_append_silent ran, consume_singleton, last]

/-- A machine that copies its first `n` items into a buffer. -/
theorem consume_copy {m n : ℕ} {fill : Vector α m → ℕ → σ}
    (each : ∀ v i a, i < n → ∃ _ : i < m, step (fill v i) a = some ⟨fill (v.set i a) (i + 1), [], true⟩)
    (v : Vector α m) {input : List α} (short : input.length ≤ n) :
    ∃ w : Vector α m, w.toList.take input.length = input ∧
      consume step (fill v 0) input = some ⟨fill w input.length, [], true⟩ := by
  obtain ⟨w, read, ran⟩ := consume_collect each v short
  refine ⟨w, read.trans ?_, ran⟩
  apply List.ext_getElem <;> simp

/-- If every frame takes a ready machine to a ready machine and emits its event, so does a list of
frames. -/
theorem consume_frames {Ready : σ → Prop} {wire : φ → List α} {event : φ → ε} {fs : List φ}
    (each : ∀ f ∈ fs, ∀ s, Ready s →
      ∃ s', Ready s' ∧ consume step s (wire f) = some ⟨s', [event f], true⟩)
    {s : σ} (ready : Ready s) :
    ∃ s', Ready s' ∧ consume step s (fs.flatMap wire) = some ⟨s', fs.map event, true⟩ := by
  induction fs generalizing s with
  | nil => exact ⟨s, ready, rfl⟩
  | cons f fs ih =>
    obtain ⟨s₁, ready₁, first⟩ := each f List.mem_cons_self s ready
    obtain ⟨s₂, ready₂, rest⟩ := ih (fun g hg => each g (List.mem_cons_of_mem _ hg)) ready₁
    refine ⟨s₂, ready₂, ?_⟩
    rw [List.flatMap_cons, consume_append, first, Option.bind_some, andThen_alive, rest]
    rfl

/-- If a frame may also stop the machine, a list of frames gives the events up to where it stopped. -/
theorem consume_frames_until {Ready : σ → Prop} {wire : φ → List α} {event : φ → ε} {fs : List φ}
    (each : ∀ f ∈ fs, ∀ s, Ready s →
      ∃ s' alive, (alive = true → Ready s') ∧ consume step s (wire f) = some ⟨s', [event f], alive⟩)
    {s : σ} (ready : Ready s) :
    ∃ out, consume step s (fs.flatMap wire) = some out ∧ out.emitted <+: fs.map event ∧
      (out.alive = true → out.emitted = fs.map event ∧ Ready out.state) := by
  induction fs generalizing s with
  | nil => exact ⟨_, rfl, List.prefix_rfl, fun _ => ⟨rfl, ready⟩⟩
  | cons f fs ih =>
    obtain ⟨s₁, alive, ready₁, first⟩ := each f List.mem_cons_self s ready
    rw [List.flatMap_cons, consume_append, first, Option.bind_some]
    cases alive with
    | false => exact ⟨_, rfl, ⟨fs.map event, rfl⟩, fun no => by cases no⟩
    | true =>
      obtain ⟨out, rest, before, done⟩ := ih (fun g hg => each g (List.mem_cons_of_mem _ hg)) (ready₁ rfl)
      refine ⟨{ out with emitted := [event f] ++ out.emitted }, ?_, ?_, fun alive => ?_⟩
      · rw [andThen_alive, rest]
        rfl
      · exact (List.prefix_append_right_inj [event f]).2 before
      · exact ⟨congrArg _ (done alive).1, (done alive).2⟩

/-- A property that every silent step keeps is kept by any input, which emits nothing. -/
theorem consume_trapped {Trapped : σ → Prop}
    (each : ∀ s a, Trapped s → ∃ s' alive, Trapped s' ∧ step s a = some ⟨s', [], alive⟩)
    {s : σ} (trapped : Trapped s) (input : List α) :
    ∃ s' alive, Trapped s' ∧ consume step s input = some ⟨s', [], alive⟩ := by
  induction input generalizing s with
  | nil => exact ⟨s, true, trapped, rfl⟩
  | cons a input ih =>
    obtain ⟨s₁, alive, trapped₁, first⟩ := each s a trapped
    rw [consume, first, Option.bind_some]
    cases alive with
    | false => exact ⟨s₁, false, trapped₁, rfl⟩
    | true =>
      rw [andThen_silent]
      exact ih trapped₁

/-- An invariant that every step keeps without a crash rules out a crash on any input. -/
theorem consume_total {Inv : σ → Prop}
    (each : ∀ s a, Inv s → ∃ out, step s a = some out ∧ (out.alive → Inv out.state))
    {s : σ} (inv : Inv s) (input : List α) :
    ∃ out, consume step s input = some out ∧ (out.alive → Inv out.state) := by
  induction input generalizing s with
  | nil => exact ⟨_, rfl, fun _ => inv⟩
  | cons a input ih =>
    obtain ⟨⟨s₁, es, alive⟩, first, inv₁⟩ := each s a inv
    rw [consume, first, Option.bind_some]
    cases alive with
    | false => exact ⟨_, rfl, inv₁⟩
    | true =>
      obtain ⟨out, rest, inv₂⟩ := ih (inv₁ rfl)
      refine ⟨{ out with emitted := es ++ out.emitted }, ?_, inv₂⟩
      rw [andThen_alive, rest]
      rfl

/-- What every step's events are like, all events of a run are like. -/
theorem consume_emitted {P : ε → Prop} (each : ∀ s a out, step s a = some out → ∀ e ∈ out.emitted, P e) {s : σ}
    {input : List α} {out : Out σ ε} (ran : consume step s input = some out) : ∀ e ∈ out.emitted, P e := by
  induction input generalizing s out with
  | nil =>
    obtain rfl := Option.some.inj ran
    exact nofun
  | cons a input ih =>
    obtain ⟨⟨s₁, es, alive⟩, first, ran⟩ := Option.bind_eq_some_iff.1 ran
    cases alive with
    | false =>
      obtain rfl := Option.some.inj ran
      exact each s a _ first
    | true =>
      obtain ⟨rest, later, rfl⟩ := Option.map_eq_some_iff.1 ran
      intro e member
      rcases List.mem_append.1 member with now | after
      · exact each s a _ first e now
      · exact ih later e after

/-! ## A caller that looks at the events after each chunk

The events are handled as they are emitted, but one that asks for the end is noticed only when the
chunk is through. `consumeUntil_between` says which events are handled for some cutting of the input:
all up to the first that asks for the end, and then whatever the chunk still holds. -/

section Until

variable (stop : ε → Bool)

/-- The events up to the first that asks for the end, which is the last of them. -/
def upTo : List ε → List ε
  | [] => []
  | e :: es => e :: if stop e then [] else upTo es

/-- The events behind the first that asks for the end. -/
def past : List ε → List ε
  | [] => []
  | e :: es => if stop e then es else past es

/-- Feed the chunks, up to the first that stops the machine or holds an event asking for the end. -/
def consumeUntil (step : σ → α → Option (Out σ ε)) (s : σ) : List (List α) → Option (Out σ ε)
  | [] => some ⟨s, [], true⟩
  | c :: cs => (consume step s c).bind fun first =>
    Out.andThen { first with alive := first.alive && !first.emitted.any stop } fun s =>
      consumeUntil step s cs

theorem upTo_append_past (es : List ε) : upTo stop es ++ past stop es = es := by
  induction es with
  | nil => rfl
  | cons e es ih =>
    by_cases h : stop e
    · simp [upTo, past, h]
    · simp [upTo, past, h, ih]

variable {stop}

theorem upTo_append_of_any {a : List ε} (some_stop : a.any stop = true) (b : List ε) :
    upTo stop (a ++ b) = upTo stop a ∧ past stop (a ++ b) = past stop a ++ b := by
  induction a with
  | nil => cases some_stop
  | cons e a ih =>
    by_cases h : stop e
    · simp [upTo, past, h]
    · obtain ⟨upto, beyond⟩ := ih (by simpa [h] using some_stop)
      simp [upTo, past, h, upto, beyond]

theorem upTo_append_of_none {a : List ε} (no_stop : a.any stop = false) (b : List ε) :
    upTo stop (a ++ b) = a ++ upTo stop b ∧ past stop (a ++ b) = past stop b := by
  induction a with
  | nil => exact ⟨rfl, rfl⟩
  | cons e a ih =>
    rw [List.any_cons, Bool.or_eq_false_iff] at no_stop
    obtain ⟨upto, beyond⟩ := ih no_stop.2
    simp [upTo, past, no_stop.1, upto, beyond]

theorem consumeUntil_cons {s : σ} {c : List α} {first : Out σ ε} (ran : consume step s c = some first)
    (cs : List (List α)) :
    consumeUntil stop step s (c :: cs) =
      Out.andThen { first with alive := first.alive && !first.emitted.any stop } fun s =>
        consumeUntil stop step s cs := by
  rw [consumeUntil, ran, Option.bind_some]

theorem consumeUntil_between (stop : ε → Bool) {s : σ} {cs : List (List α)} {out : Out σ ε}
    (ran : consume step s cs.flatten = some out) :
    ∃ s' mid, mid <+: past stop out.emitted ∧
      consumeUntil stop step s cs =
        some ⟨s', upTo stop out.emitted ++ mid, out.alive && !out.emitted.any stop⟩ := by
  induction cs generalizing s out with
  | nil =>
    obtain rfl := Option.some.inj ran
    exact ⟨s, [], List.nil_prefix, rfl⟩
  | cons c cs ih =>
    rw [List.flatten_cons, consume_append] at ran
    obtain ⟨⟨s₁, es, alive⟩, first, rest⟩ := Option.bind_eq_some_iff.1 ran
    rw [consumeUntil_cons first]
    cases alive with
    | false =>
      obtain rfl := Option.some.inj rest
      exact ⟨s₁, past stop es, List.prefix_rfl, by simp [Out.andThen, upTo_append_past]⟩
    | true =>
      obtain ⟨last, went_on, rfl⟩ := Option.map_eq_some_iff.1 rest
      cases stops : es.any stop with
      | true =>
        -- the caller leaves after this chunk, so all of it has been handled
        obtain ⟨upto, beyond⟩ := upTo_append_of_any stops last.emitted
        refine ⟨s₁, past stop es, beyond ▸ List.prefix_append _ _, ?_⟩
        simp [Out.andThen, upto, upTo_append_past, stops]
      | false =>
        obtain ⟨s', mid, within, ran'⟩ := ih went_on
        obtain ⟨upto, beyond⟩ := upTo_append_of_none stops last.emitted
        refine ⟨s', mid, beyond ▸ within, ?_⟩
        simp [Out.andThen, ran', upto, stops]

/-- A machine that emits at most one event for an item, fed item by item, has the events handled up
to the first that asks for the end, and no more. -/
theorem consumeUntil_singletons (stop : ε → Bool)
    (single : ∀ s a first, step s a = some first → first.emitted.length ≤ 1)
    {s : σ} {input : List α} {out : Out σ ε} (ran : consume step s input = some out) :
    ∃ s', consumeUntil stop step s (input.map fun a => [a]) =
      some ⟨s', upTo stop out.emitted, out.alive && !out.emitted.any stop⟩ := by
  induction input generalizing s out with
  | nil =>
    obtain rfl := Option.some.inj ran
    exact ⟨s, rfl⟩
  | cons a input ih =>
    obtain ⟨⟨s₁, es, alive⟩, first, rest⟩ := Option.bind_eq_some_iff.1 ran
    have one := single s a _ first
    rw [List.map_cons, consumeUntil_cons ((consume_singleton s a).trans first)]
    have all : upTo stop es = es := by
      rcases es with _ | ⟨e, _ | ⟨e', es⟩⟩
      · rfl
      · simp [upTo]
      · simp at one
    cases alive with
    | false =>
      obtain rfl := Option.some.inj rest
      exact ⟨s₁, by simp [Out.andThen, all]⟩
    | true =>
      obtain ⟨last, went_on, rfl⟩ := Option.map_eq_some_iff.1 rest
      cases stops : es.any stop with
      | true =>
        obtain ⟨upto, -⟩ := upTo_append_of_any stops last.emitted
        exact ⟨s₁, by simp [Out.andThen, upto, stops, all]⟩
      | false =>
        obtain ⟨s', ran'⟩ := ih went_on
        obtain ⟨upto, -⟩ := upTo_append_of_none stops last.emitted
        exact ⟨s', by simp [Out.andThen, ran', upto, stops]⟩

end Until

end Feed
