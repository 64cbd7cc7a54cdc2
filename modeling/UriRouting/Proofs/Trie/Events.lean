import UriRouting.Router.Search
/-!
The events of a walk.

A walk works in place: it spends steps, pushes and drops captures, and breaks off as soon as its
visitor or its budget says so. `Trie.events` writes down what a walk would do if nothing ever broke
it off, and `Visitor.play` goes through such a list until something does. `descend_follows` says that
a walk is the play of its events, so that everything else about walks is a statement about lists.
-/

namespace UriRouting

variable {β ε σ : Type}

/-! ## Captures

A pattern pushes its values one by one and drops them when one is refused. In the end it has pushed
all of them or none. -/

namespace SegmentPattern

theorem pushValues_eq (mark : Nat) (values : List (Variable × String)) (captures : Captures)
    (h : mark ≤ captures.length) :
    pushValues mark values captures
      = if values.all fun (v, value) => v.accepts value then
          (true, captures ++ values.map fun (v, value) => (v.name, value))
        else (false, captures.take mark) := by
  induction values generalizing captures with
  | nil => simp [pushValues]
  | cons head rest ih =>
    obtain ⟨v, value⟩ := head
    rw [pushValues]
    by_cases hv : v.accepts value = true
    · have hlen : mark ≤ (captures ++ [(v.name, value)]).length := by
        rw [List.length_append]; omega
      rw [if_pos hv, ih _ hlen, List.take_append_of_le_length h]
      simp only [List.all_cons, hv, Bool.true_and, List.map_cons, List.append_assoc,
        List.singleton_append]
    · rw [if_neg hv]
      simp [hv]

/-- Capturing appends what `capture?` gives, or leaves everything as it was. -/
theorem capture_eq (p : SegmentPattern) (segment : String) (captures : Captures) :
    p.capture segment captures
      = match p.capture? segment with
        | some more => (true, captures ++ more)
        | none => (false, captures) := by
  unfold capture capture?
  cases p.values? segment with
  | none => rfl
  | some values =>
    simp only [pushValues_eq _ values captures (Nat.le_refl _), Option.bind_some, List.take_length]
    split <;> rfl

end SegmentPattern

/-! ## Events -/

/-- What happens on a walk. -/
inductive Event (ε : Type)
  | attempt
  | question (e : Evaluation)
  | visit (found : ε) (captures : Captures)

def Event.end? : Event ε → Option (ε × Captures)
  | visit found captures => some (found, captures)
  | _ => none

/-- Everything that happens when segments are followed from a node, in order. -/
def Trie.events (arrive : β → Captures → List (Event ε)) :
    List String → Trie β → Captures → List (Event ε)
  | [], node leaf _ _, captures => arrive leaf captures
  | segment :: rest, node _ literals patterns, captures =>
    (match literals.find? segment with
      | some child => .attempt :: events arrive rest child captures
      | none => [])
    ++ patterns.flatMap fun (p, child) =>
      .attempt :: ((p.evaluate segment).map .question
        ++ match p.capture? segment with
          | some more => events arrive rest child (captures ++ more)
          | none => [])

namespace Visitor

/-- Goes through events as long as nothing breaks the walk off. Tells whether it came to the end. -/
def play (v : Visitor ε σ) : List (Event ε) → Progress σ → Bool × Progress σ
  | [], p => (true, p)
  | .attempt :: es, p =>
    match p.stepsLeft with
    | 0 => (false, { p with exhausted := true })
    | n + 1 => play v es { p with stepsLeft := n }
  | .question e :: es, p => play v es { p with seen := v.hear e p.seen }
  | .visit found captures :: es, p =>
    match v.visit found captures p.seen with
    | .ok _ seen => play v es { p with seen }
    | .error _ seen => (false, { p with seen })

theorem play_append (v : Visitor ε σ) (es es' : List (Event ε)) (p : Progress σ) :
    v.play (es ++ es') p
      = match v.play es p with
        | (true, p) => v.play es' p
        | (false, p) => (false, p) := by
  induction es generalizing p with
  | nil => rfl
  | cons e es ih =>
    cases e with
    | attempt =>
      rw [List.cons_append, play, play]
      cases p.stepsLeft with
      | zero => rfl
      | succ n => exact ih _
    | question e => exact ih _
    | visit found captures =>
      rw [List.cons_append, play, play]
      cases v.visit found captures p.seen with
      | ok _ seen => exact ih _
      | error _ seen => rfl

theorem play_questions (v : Visitor ε σ) (asked : List Evaluation) (p : Progress σ) :
    v.play (asked.map .question) p
      = (true, { p with seen := asked.foldl (fun seen e => v.hear e seen) p.seen }) := by
  induction asked generalizing p with
  | nil => rfl
  | cons e asked ih => exact ih _

end Visitor

/-! ## Walks go through their events -/

/-- A walk goes through the events that belong to its captures, and if it is not broken off, it
leaves the captures as they were. -/
def Follows (v : Visitor ε σ) (m : WalkM σ Unit) (es : Captures → List (Event ε)) : Prop :=
  ∀ w, match m w with
    | .ok _ w' =>
      v.play (es w.captures) w.toProgress = (true, w'.toProgress) ∧ w'.captures = w.captures
    | .error _ w' => v.play (es w.captures) w.toProgress = (false, w'.toProgress)

section

variable {v : Visitor ε σ}

theorem follows_pure : Follows v (pure ()) fun _ => [] := fun _ => ⟨rfl, rfl⟩

theorem follows_seq {m m' : WalkM σ Unit} {es es' : Captures → List (Event ε)}
    (h : Follows v m es) (h' : Follows v m' es') :
    Follows v (do m; m') fun captures => es captures ++ es' captures := by
  intro w
  have hw := h w
  show match EStateM.bind m (fun _ => m') w with | .ok _ w' => _ | .error _ w' => _
  unfold EStateM.bind
  cases hm : m w with
  | error _ w' =>
    rw [hm] at hw
    show v.play _ _ = _
    rw [Visitor.play_append, hw]
  | ok _ w₁ =>
    rw [hm] at hw
    obtain ⟨hplay, hcaptures⟩ := hw
    have hw' := h' w₁
    rw [hcaptures] at hw'
    simp only [Visitor.play_append, hplay]
    cases hm' : m' w₁ with
    | error _ w' => rw [hm'] at hw'; exact hw'
    | ok _ w' => rw [hm'] at hw'; exact hw'

theorem follows_forM {α : Type} {f : α → WalkM σ Unit} {es : α → Captures → List (Event ε)}
    {l : List α} (h : ∀ x ∈ l, Follows v (f x) (es x)) :
    Follows v (l.forM f) fun captures => l.flatMap fun x => es x captures := by
  induction l with
  | nil => exact follows_pure
  | cons x l ih =>
    simp only [List.flatMap_cons]
    exact follows_seq (h x List.mem_cons_self) (ih fun y hy => h y (List.mem_cons_of_mem x hy))

theorem follows_step : Follows v Walk.step fun _ => [.attempt] := by
  intro w
  unfold Walk.step
  rw [Visitor.play]
  cases hs : w.stepsLeft with
  | zero => simp
  | succ n => simp [Visitor.play]

theorem follows_arrive (found : ε) :
    Follows v (Walk.arrive v found) fun captures => [.visit found captures] := by
  intro w
  unfold Walk.arrive
  rw [Visitor.play]
  cases v.visit found w.captures w.seen with
  | ok _ seen => exact ⟨rfl, rfl⟩
  | error _ seen => rfl

theorem capturing_run (p : SegmentPattern) (segment : String) (next : WalkM σ Unit) (w : Walk σ) :
    Walk.capturing v p segment next w
      = let seen := (p.evaluate segment).foldl (fun seen e => v.hear e seen) w.seen
        match p.capture? segment with
        | none => .ok () { w with seen }
        | some more =>
          match next { w with seen, captures := w.captures ++ more } with
          | .ok _ w' => .ok () { w' with captures := w'.captures.take w.captures.length }
          | .error _ w' => .error () w' := by
  show EStateM.run (Walk.capturing v p segment next) w = _
  unfold Walk.capturing Walk.report
  simp only [EStateM.run_bind, EStateM.run_modify, EStateM.run_get, SegmentPattern.capture_eq]
  cases p.capture? segment with
  | none => rfl
  | some more =>
    have hrun (w : Walk σ) : EStateM.run next w = next w := rfl
    simp only [if_true, EStateM.run_bind, EStateM.run_modify, hrun]
    cases next _ with
    | ok _ w' => rfl
    | error _ w' => rfl

theorem follows_capturing (p : SegmentPattern) (segment : String) {next : WalkM σ Unit}
    {es : Captures → List (Event ε)} (h : Follows v next es) :
    Follows v (Walk.capturing v p segment next) fun captures =>
      (p.evaluate segment).map .question
        ++ match p.capture? segment with
          | some more => es (captures ++ more)
          | none => [] := by
  intro w
  rw [capturing_run]
  simp only [Visitor.play_append, Visitor.play_questions]
  cases p.capture? segment with
  | none => exact ⟨rfl, rfl⟩
  | some more =>
    have hnext := h { w with
      seen := (p.evaluate segment).foldl (fun seen e => v.hear e seen) w.seen
      captures := w.captures ++ more }
    dsimp only at hnext ⊢
    split at hnext
    · next w' hw' =>
      obtain ⟨hplay, hcaptures⟩ := hnext
      exact ⟨hplay, by rw [hcaptures]; exact List.take_left⟩
    · next w' hw' =>
      exact hnext

/-- A walk is the play of its events. -/
theorem descend_follows {arrive : β → WalkM σ Unit} {ends : β → Captures → List (Event ε)}
    (h : ∀ leaf, Follows v (arrive leaf) (ends leaf)) (segments : List String) (t : Trie β) :
    Follows v (t.descend v arrive segments) (t.events ends segments) := by
  induction segments generalizing t with
  | nil =>
    obtain ⟨leaf, literals, patterns⟩ := t
    exact h leaf
  | cons segment rest ih =>
    obtain ⟨leaf, literals, patterns⟩ := t
    show Follows v (Trie.descend v arrive (segment :: rest) (.node leaf literals patterns)) _
    rw [Trie.descend]
    refine follows_seq ?_ (follows_forM fun child _ => ?_)
    · cases literals.find? segment with
      | none => exact follows_pure
      | some child => exact follows_seq follows_step (ih child)
    · exact follows_seq follows_step (follows_capturing child.1 segment (ih child.2))

end

end UriRouting
