import UriRouting.Cache.Loader
import Mathlib.Data.List.Chain
/-!
Runs of a loader.

A loader is used step by step: values are loaded, read, set and cleared, and any read may be made to
find the place empty. `Loader.perform` makes one step and `Loader.run` a list of them, as a list of
events. A step lemma says what every step keeps to (`Event.Lawful`), and that it leaves the lock free for
the next one. All of a run follows from it: no step ever waits, and a value that was loaded stays until it is
replaced.
-/

namespace UriRouting

namespace Cache

variable {ρ ε : Type}

/-- Whether both reads of a load find the place empty. -/
def misses (c : Cache ρ) : Bool := c.read.1.isNone && c.read.2.read.1.isNone

/-- The next read is not made to find the place empty. -/
def Shows (c : Cache ρ) : Prop := c.hidden.head? ≠ some true

@[simp] theorem value?_read (c : Cache ρ) : c.read.2.value? = c.value? := by
  unfold read
  split <;> rfl

theorem value?_of_read {c : Cache ρ} {v : ρ} (h : c.read.1 = some v) : c.value? = some v := by
  unfold read at h
  split at h
  · exact h
  · split at h
    · cases h
    · exact h

theorem Shows.read {c : Cache ρ} (h : c.Shows) : c.read.1 = c.value? := by
  unfold Cache.read
  split
  · rfl
  · next hides hidden heq =>
    have hfalse : hides = false := by simpa [Shows, heq] using h
    simp [hfalse]

theorem Shows.misses {c : Cache ρ} (h : c.Shows) {v : ρ} (hv : c.value? = some v) :
    c.misses = false := by
  simp [Cache.misses, h.read, hv]

/-- A load either finds a value, or comes to what its build comes to. -/
theorem load_cases (c : Cache ρ) (build : Unit → BuildResult ρ ε) :
    (∃ v, c.misses = false ∧ c.value? = some v ∧ (c.load build).1 = .cached v ∧
      (c.load build).2.value? = some v) ∨
    c.misses = true ∧ c.load build = c.read.2.read.2.publish (build ()) := by
  cases hfirst : c.read with
  | mk first c₁ =>
    have hkept : c₁.value? = c.value? := by rw [← value?_read c, hfirst]
    cases first with
    | some v =>
      have hv : c.value? = some v := value?_of_read (by rw [hfirst])
      exact Or.inl ⟨v, by simp [misses, hfirst], hv, by simp [load, hfirst], by
        simp [load, hfirst, hkept, hv]⟩
    | none =>
      cases hsecond : c₁.read with
      | mk second c₂ =>
        have hkept₂ : c₂.value? = c₁.value? := by rw [← value?_read c₁, hsecond]
        cases second with
        | some v =>
          have hv : c₁.value? = some v := value?_of_read (by rw [hsecond])
          exact Or.inl ⟨v, by simp [misses, hfirst, hsecond], hkept ▸ hv,
            by simp [load, hfirst, hsecond], by simp [load, hfirst, hsecond, hkept₂, hv]⟩
        | none =>
          exact Or.inr ⟨by simp [misses, hfirst, hsecond], by simp [load, hfirst, hsecond]⟩

end Cache

namespace Loader

section

variable {ρ ε σ : Type}

/-- With the lock free, a load comes to what it would come to without a lock, and frees the lock again. The
build sees the world at most once. -/
theorem load_free {l : Loader ρ} (hfree : l.lock.held = false) (build : σ → BuildResult ρ ε × σ)
    (world : σ) : ∃ lock : Lock, lock.held = false ∧
      l.load build world = some ((l.cache.load fun _ => (build world).1).1,
        ⟨(l.cache.load fun _ => (build world).1).2, lock⟩,
        if l.cache.misses then (build world).2 else world) := by
  cases hfirst : l.cache.read with
  | mk first c₁ =>
    cases first with
    | some v => exact ⟨l.lock, hfree, by simp [load, Cache.load, Cache.misses, hfirst]⟩
    | none =>
      obtain ⟨taken, htake⟩ : ∃ taken, l.lock.take? = some taken := by
        cases hpoisoned : l.lock.poisoned <;> simp [Lock.take?, hfree, hpoisoned]
      refine ⟨(Lock.ofTaken taken).release (c₁.fill build world).1.1.isAborted, rfl, ?_⟩
      cases hsecond : c₁.read with
      | mk second c₂ =>
        cases second <;>
          simp [load, Cache.load, Cache.fill, Cache.misses, hfirst, hsecond, htake]

end

/-! ## Steps and runs -/

/-- A use of a loader. A load comes with what its build would come to, and hiding with a mark for
each of the next reads. -/
inductive Step (ρ ε : Type)
  | load (outcome : BuildResult ρ ε)
  | get
  | set (value : ρ)
  | clear
  | hide (reads : List Bool)
  deriving DecidableEq, Repr

/-- What a step answers; a load also tells how often it ran its build. -/
inductive Answer (ρ ε : Type)
  | load (result : LoadResult ρ ε) (builds : Nat)
  | get (value? : Option ρ)
  | done
  deriving DecidableEq, Repr

/-- A step that was made, between the loader before it and after it. -/
structure Event (ρ ε : Type) where
  step : Step ρ ε
  before : Loader ρ
  answer : Answer ρ ε
  after : Loader ρ
  deriving DecidableEq, Repr

variable {ρ ε : Type}

/-- One step. The world of a build is the number of builds so far. -/
def perform (l : Loader ρ) : Step ρ ε → Option (Answer ρ ε × Loader ρ)
  | .load outcome =>
    (l.load (fun builds => (outcome, builds + 1)) 0).map fun (result, l, builds) =>
      (.load result builds, l)
  | .get =>
    let (value?, cache) := l.cache.read
    some (.get value?, { l with cache })
  | .set value => some (.done, { l with cache := l.cache.store value })
  | .clear => some (.done, { l with cache := l.cache.clear })
  | .hide reads => some (.done, { l with cache := l.cache.hideFrom reads })

/-- The events of a run; none if one of its steps waits for ever. -/
def run (l : Loader ρ) : List (Step ρ ε) → Option (List (Event ρ ε))
  | [] => some []
  | step :: steps => do
    let (answer, after) ← l.perform step
    let events ← after.run steps
    return ⟨step, l, answer, after⟩ :: events

/-! ## What every step keeps to -/

/-- What a load keeps to whose build would come to `outcome`. If it finds no value, it answers just that. -/
structure LoadLaw (outcome : BuildResult ρ ε) (before after : Cache ρ) (result : LoadResult ρ ε)
    (builds : Nat) : Prop where
  once : builds = if before.misses then 1 else 0
  told : result.builds = builds
  hit : before.misses = false → ∃ v, result = .cached v
  miss : before.misses = true → match outcome with
    | .built v => result = .published v
    | .failed e => result = .failed e
    | .aborted => result = .aborted
  returned : ∀ v, result.value? = some v → after.value? = some v
  unsuccessful : result.value? = none → after.value? = before.value?
  stored : after.value? = before.value? ∨
    ∃ v, outcome = .built v ∧ result = .published v ∧ after.value? = some v

theorem loadLaw (c : Cache ρ) (outcome : BuildResult ρ ε) :
    LoadLaw outcome c (c.load fun _ => outcome).2 (c.load fun _ => outcome).1
      (if c.misses then 1 else 0) := by
  obtain ⟨v, hhit, hv, hresult, hafter⟩ | ⟨hmiss, hload⟩ := c.load_cases fun _ => outcome
  · refine ⟨rfl, ?_, fun _ => ⟨v, hresult⟩, fun hmiss => ?_, fun w hw => ?_, fun hnone => ?_, ?_⟩
    · simp [hresult, hhit, LoadResult.builds]
    · rw [hhit] at hmiss
      cases hmiss
    · rw [hresult] at hw
      exact hafter.trans hw
    · rw [hresult] at hnone
      cases hnone
    · exact Or.inl (hafter.trans hv.symm)
  · rw [hload]
    refine ⟨rfl, ?_, fun hhit => ?_, fun _ => ?_, fun w hw => ?_, fun hnone => ?_, ?_⟩
    · cases outcome <;> simp [hmiss, Cache.publish, LoadResult.builds]
    · rw [hmiss] at hhit
      cases hhit
    · cases outcome <;> rfl
    · cases outcome with
      | built v => exact hw
      | failed | aborted => cases hw
    · cases outcome with
      | built v => cases hnone
      | failed | aborted => simp [Cache.publish]
    · cases outcome with
      | built v => exact Or.inr ⟨v, rfl, rfl, rfl⟩
      | failed | aborted => simp [Cache.publish]

/-- What a step keeps to: a load to its law, a read answers what the cache shows, and the value changes
as the step says. -/
def Event.Lawful (e : Event ρ ε) : Prop :=
  match e.step, e.answer with
  | .load outcome, .load result builds =>
    LoadLaw outcome e.before.cache e.after.cache result builds
  | .get, .get value? =>
    value? = e.before.cache.read.1 ∧ e.after.cache.value? = e.before.cache.value?
  | .set value, .done => e.after.cache.value? = some value
  | .clear, .done => e.after.cache.value? = none
  | .hide _, .done => e.after.cache.value? = e.before.cache.value?
  | _, _ => False

/-- A step finds the lock free and leaves it free. -/
theorem perform_lawful {l : Loader ρ} (hfree : l.lock.held = false) (step : Step ρ ε) :
    ∃ answer after, l.perform step = some (answer, after) ∧ after.lock.held = false ∧
      (⟨step, l, answer, after⟩ : Event ρ ε).Lawful := by
  cases step with
  | load outcome =>
    obtain ⟨lock, hlock, hload⟩ := load_free hfree (fun builds : Nat => (outcome, builds + 1)) 0
    have hperform := congrArg (Option.map fun (result, l, builds) => (Answer.load result builds, l)) hload
    exact ⟨_, _, hperform, hlock, loadLaw l.cache outcome⟩
  | get => exact ⟨_, _, rfl, hfree, rfl, l.cache.value?_read⟩
  | set value => exact ⟨_, _, rfl, hfree, rfl⟩
  | clear => exact ⟨_, _, rfl, hfree, rfl⟩
  | hide reads => exact ⟨_, _, rfl, hfree, rfl⟩

/-! ## Whole runs -/

/-- The event starts where the one before it ended. -/
def Event.Precedes (e e' : Event ρ ε) : Prop := e'.before = e.after

theorem run_lawful {l : Loader ρ} (hfree : l.lock.held = false) (steps : List (Step ρ ε)) :
    ∃ events, l.run steps = some events ∧ events.map (·.step) = steps ∧
      (∀ e ∈ events.head?, e.before = l) ∧ events.IsChain Event.Precedes ∧
      ∀ e ∈ events, e.Lawful := by
  induction steps generalizing l with
  | nil => exact ⟨[], rfl, rfl, by simp, List.isChain_nil, by simp⟩
  | cons step steps ih =>
    obtain ⟨answer, after, hperform, hfree', hlawful⟩ := perform_lawful hfree step
    obtain ⟨events, hrun, hsteps, hhead, hchain, hall⟩ := ih hfree'
    refine ⟨⟨step, l, answer, after⟩ :: events, by simp [run, hperform, hrun], by simp [hsteps],
      by simp, List.isChain_cons.mpr ⟨hhead, hchain⟩, ?_⟩
    rintro e (_ | ⟨_, he⟩)
    · exact hlawful
    · exact hall e he

/-- The cache is not changed from outside, and the first read of a load and that of a get find what is
there. -/
def Event.Quiet (e : Event ρ ε) : Prop :=
  match e.step with
  | .load _ | .get => e.before.cache.Shows
  | .hide _ => True
  | .set _ | .clear => False

/-- A load answers the value without a build, and a get answers it. -/
def Event.Gives (e : Event ρ ε) (v : ρ) : Prop :=
  match e.answer with
  | .load result builds => result = .cached v ∧ builds = 0
  | .get value? => value? = some v
  | .done => True

theorem Event.Lawful.gives {e : Event ρ ε} (h : e.Lawful) (hquiet : e.Quiet) {v : ρ}
    (hv : e.before.cache.value? = some v) : e.Gives v ∧ e.after.cache.value? = some v := by
  obtain ⟨step, before, answer, after⟩ := e
  cases step with
  | load outcome =>
    cases answer with
    | load result builds =>
      have hlaw : LoadLaw outcome before.cache after.cache result builds := h
      have hhit := Cache.Shows.misses hquiet hv
      obtain ⟨w, rfl⟩ := hlaw.hit hhit
      have hkept : after.cache.value? = some v := by
        obtain hkept | ⟨_, _, hpublished, _⟩ := hlaw.stored
        · exact hkept.trans hv
        · cases hpublished
      have hw : after.cache.value? = some w := hlaw.returned w rfl
      rw [hkept, Option.some.injEq] at hw
      exact ⟨⟨by rw [hw], by simp [hlaw.once, hhit]⟩, hkept⟩
    | get | done => exact h.elim
  | get =>
    cases answer with
    | get value? =>
      obtain ⟨hread, hkept⟩ := h
      exact ⟨hread.trans ((Cache.Shows.read hquiet).trans hv), hkept.trans hv⟩
    | load | done => exact h.elim
  | hide reads =>
    cases answer with
    | done => exact ⟨trivial, Eq.trans h hv⟩
    | load | get => exact h.elim
  | set | clear => exact hquiet.elim

/-- A value in the cache is answered by every step of a quiet stretch. -/
theorem gives_of_quiet {e : Event ρ ε} {later : List (Event ρ ε)} {v : ρ}
    (hv : e.after.cache.value? = some v) (hchain : (e :: later).IsChain Event.Precedes)
    (hlawful : ∀ x ∈ later, x.Lawful) (hquiet : ∀ x ∈ later, x.Quiet) :
    ∀ x ∈ later, x.Gives v := by
  induction later generalizing e with
  | nil => simp
  | cons y later ih =>
    obtain ⟨hstart, hchain⟩ := List.isChain_cons_cons.mp hchain
    have hv' : y.before.cache.value? = some v := by rw [hstart, hv]
    obtain ⟨hgives, hafter⟩ :=
      (hlawful y List.mem_cons_self).gives (hquiet y List.mem_cons_self) hv'
    rintro x (_ | ⟨_, hx⟩)
    · exact hgives
    · exact ih hafter hchain (fun x hx => hlawful x (.tail _ hx)) (fun x hx => hquiet x (.tail _ hx)) x hx

/-- Every run comes to its end, and all of its steps are lawful. After a load that succeeded, loads and
gets answer its value, without a build, for as long as the cache is not changed and no read is made
to find it empty. -/
theorem runs_lawful (cache : Cache ρ) (steps : List (Step ρ ε)) :
    ∃ events, (Loader.new cache).run steps = some events ∧ events.map (·.step) = steps ∧
      (∀ e ∈ events.head?, e.before = .new cache) ∧ events.IsChain Event.Precedes ∧
      (∀ e ∈ events, e.Lawful) ∧
      ∀ earlier e later rest, events = earlier ++ e :: (later ++ rest) →
        ∀ result builds v, e.answer = .load result builds → result.value? = some v →
          (∀ x ∈ later, x.Quiet) → ∀ x ∈ later, x.Gives v := by
  obtain ⟨events, hrun, hsteps, hhead, hchain, hlawful⟩ :=
    run_lawful (l := Loader.new cache) rfl steps
  refine ⟨events, hrun, hsteps, hhead, hchain, hlawful, ?_⟩
  intro earlier e later rest hevents result builds v hanswer hresult hquiet
  subst hevents
  have he : e.Lawful := hlawful e (by simp)
  have hv : e.after.cache.value? = some v := by
    obtain ⟨step, before, answer, after⟩ := e
    subst hanswer
    cases step with
    | load outcome => exact he.returned v hresult
    | get | set | clear | hide => exact he.elim
  have hlater : (e :: later).IsChain Event.Precedes := by
    have hbehind := hchain.right_of_append
    rw [← List.cons_append] at hbehind
    exact hbehind.left_of_append
  exact gives_of_quiet hv hlater (fun x hx => hlawful x (by simp [hx])) hquiet

/-- A build that breaks off poisons the lock, and the next load builds all the same. Hidden from the
first read alone, its value is found by the second. -/
example : ((Loader.new (.empty : Cache Nat)).run
      [.load .aborted, .load (.built 1), .hide [true], .load (.failed "late"), .get]).map
      (·.map (·.answer)) =
    some [.load .aborted 1, .load (.published 1) 1, .done, .load (.cached 1) 0, .get (some 1)] := by
  decide

end Loader

end UriRouting
