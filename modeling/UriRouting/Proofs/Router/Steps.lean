import UriRouting.Proofs.Router.Budget
import UriRouting.Proofs.Router.Shape
import UriRouting.Proofs.Trie.Ways
/-!
The steps of a search.

A search tries each node of a router at most once: `walk_notes`. So it spends fewer steps than there
are nodes, and with as many it never runs out of them, whatever the request.
-/

namespace UriRouting

variable {α ε σ : Type}

/-! ## Attempts -/

/-- With a step for each attempt no visitor runs out of them. -/
theorem Visitor.play_of_attempts_le (v : Visitor ε σ) {es : List (Event ε)} {p : Progress σ}
    (hp : p.exhausted = false) (h : attempts es ≤ p.stepsLeft) :
    (v.play es p).2.exhausted = false := by
  induction es generalizing p with
  | nil => exact hp
  | cons e es ih =>
    cases e with
    | attempt =>
      obtain ⟨stepsLeft, exhausted, seen⟩ := p
      rw [attempts_attempt] at h
      dsimp only at h
      cases stepsLeft with
      | zero => omega
      | succ n => exact ih (p := ⟨n, exhausted, seen⟩) hp (by dsimp only; omega)
    | question e => exact ih (p := { p with seen := v.hear e p.seen }) hp h
    | visit found captures =>
      rw [attempts_visit] at h
      rw [play]
      cases v.visit found captures p.seen with
      | ok _ seen => exact ih (p := { p with seen }) hp h
      | error _ seen => exact hp

/-! ## The nodes of a router -/

/-- The ways to the nodes of the trie of hosts at the end of a path. -/
def PathEnd.ways (p : PathEnd α) : List Way :=
  match p.hosts? with
  | none => []
  | some hosts => (hosts.ways fun _ => []).map (.hosts :: ·)

theorem EndInShape.length_ways {entries : List (Entry α)} {maxSegments : Nat} {p : PathEnd α}
    (h : EndInShape entries maxSegments p) : p.ways.length = p.hostNodes := by
  unfold PathEnd.ways PathEnd.hostNodes
  cases hhosts : p.hosts? with
  | none => rfl
  | some hosts =>
    have hsorted : hosts.Sorted := (h.hosts hosts hhosts).nodes.sorted
    rw [List.length_map]
    exact Trie.length_ways hsorted fun _ _ _ => rfl

def arriveAtPathNoting (v : Visitor (Entry α) (Noted σ)) (labels : List String) (start : Way)
    (p : PathEnd α) : WalkM (Noted σ) Unit := do
  p.hosts?.forM fun hosts =>
    hosts.descendNoting v (fun _ => arriveAtHost v) (start ++ [.hosts]) labels
  arriveAtHost v p.entries

theorem arriveAtHost_notes (v : Visitor (Entry α) σ) (entries : List (Entry α)) :
    Notes (fun _ => False) (arriveAtHost v.noting entries) (arriveAtHost v entries) := by
  have hnone := notes_forM (R := fun _ _ => False) (fun e (_ : e ∈ entries) => notes_arrive (v := v) e)
    (List.pairwise_of_forall fun _ _ _ => False.elim)
  exact hnone.mono fun way hway => hway.elim fun _ h => h.2

theorem arriveAtPath_notes (v : Visitor (Entry α) σ) (labels : List String) (start : Way)
    (p : PathEnd α) : Notes (Beyond start p.ways) (arriveAtPathNoting v.noting labels start p)
      (arriveAtPath v labels p) := by
  obtain ⟨entries, hosts?⟩ := p
  have hhosts : Notes (Beyond start (PathEnd.ways ⟨entries, hosts?⟩))
      (hosts?.forM fun hosts =>
        hosts.descendNoting v.noting (fun _ => arriveAtHost v.noting) (start ++ [.hosts]) labels)
      (hosts?.forM fun hosts => hosts.descend v (arriveAtHost v) labels) := by
    cases hosts? with
    | none => exact notes_pure
    | some hosts =>
      have hleaves : ∀ (start : Way) (entries : List (Entry α)),
          Notes (Beyond start []) (arriveAtHost v.noting entries) (arriveAtHost v entries) :=
        fun _ entries => (arriveAtHost_notes v entries).mono fun _ => False.elim
      refine (descend_notes hleaves (start ++ [.hosts]) labels hosts).mono fun way hway => ?_
      obtain ⟨more, hmore, hroot, rfl⟩ := hway
      refine ⟨.hosts :: more, List.mem_map_of_mem hmore, Way.not_toRoot_cons .hosts hroot, ?_⟩
      rw [List.append_assoc, List.singleton_append]
  refine (notes_seq hhosts (arriveAtHost_notes v entries) fun _ _ => id).mono fun way hway => ?_
  exact hway.resolve_right id

namespace Router

/-- The ways to the nodes of a router, of the trie of paths and the tries of hosts. -/
def ways (r : Router α) : List Way := r.root.ways PathEnd.ways

theorem Reachable.length_ways {r : Router α} (h : Reachable r) : r.ways.length = r.nodeCount :=
  Trie.length_ways h.inShape.sorted fun path s hs => (h.inShape path s hs).good.length_ways

/-- A walk through a router that notes the ways to the nodes that it tries. -/
def walkNoting (r : Router α) (v : Visitor (Entry α) (Noted σ)) (host path : String) :
    WalkM (Noted σ) Unit :=
  r.root.descendNoting v (arriveAtPathNoting v (labelsOf host)) [] (segmentsOfPath path)

theorem walk_notes (r : Router α) (v : Visitor (Entry α) σ) (host path : String) :
    Notes (Beyond [] r.ways) (r.walkNoting v.noting host path) (r.walk v host path) :=
  descend_notes (arriveAtPath_notes v (labelsOf host)) [] (segmentsOfPath path) r.root

/-- What a walk with a number of steps leaves, with its notes. -/
def noted (r : Router α) (v : Visitor (Entry α) σ) (host path : String) (steps : Nat) (seen : σ) :
    Walk (Noted σ) :=
  Walk.ended (r.walkNoting v.noting host path { stepsLeft := steps, seen := ⟨seen, []⟩ })

/-- Notes of a walk with a number of steps: it tried each node at most once, none of them a root, and
spent a step for each. -/
structure TriesOnce (r : Router α) (steps : Nat) (w : Walk (Noted σ)) : Prop where
  once : w.seen.tried.Nodup
  nodes : ∀ way ∈ w.seen.tried, way ∈ r.ways ∧ ¬ Way.ToRoot way
  spent : w.stepsLeft + w.seen.tried.length = steps

theorem walked_eq_noted (r : Router α) (v : Visitor (Entry α) σ) (host path : String) (steps : Nat)
    (seen : σ) : r.walked v host path steps seen = (r.noted v host path steps seen).withoutNotes := by
  have hsame := (r.walk_notes v host path).same { stepsLeft := steps, seen := ⟨seen, []⟩ }
  have hstart : Walk.withoutNotes { stepsLeft := steps, seen := (⟨seen, []⟩ : Noted σ) }
      = { stepsLeft := steps, seen } := rfl
  rw [hstart] at hsame
  rw [walked, noted, hsame]
  cases r.walkNoting v.noting host path _ <;> rfl

theorem noted_triesOnce (r : Router α) (v : Visitor (Entry α) σ) (host path : String) (steps : Nat)
    (seen : σ) : r.TriesOnce steps (r.noted v host path steps seen) := by
  obtain ⟨tried, htried, hsteps, hnodup, hways⟩ :=
    (r.walk_notes v host path).spent { stepsLeft := steps, seen := ⟨seen, []⟩ }
  rw [List.nil_append] at htried
  refine ⟨htried ▸ hnodup, fun way hway => ?_, ?_⟩
  · obtain ⟨more, hmore, hroot, rfl⟩ := hways way (htried ▸ hway)
    exact ⟨hmore, hroot⟩
  · rw [noted, htried]
    exact hsteps

/-- The root of the trie of paths is not tried, and so there are fewer steps than nodes. -/
theorem TriesOnce.lt {r : Router α} (hr : Reachable r) {steps : Nat} {w : Walk (Noted σ)}
    (h : r.TriesOnce steps w) : w.seen.tried.length < r.nodeCount := by
  have hroot : [] ∉ w.seen.tried := fun hmem => (h.nodes [] hmem).2 (Or.inl rfl)
  have hnodup : ([] :: w.seen.tried).Nodup := List.nodup_cons.mpr ⟨hroot, h.once⟩
  have hways : ([] :: w.seen.tried) ⊆ r.ways :=
    List.cons_subset.mpr ⟨r.root.nil_mem_ways, fun way hway => (h.nodes way hway).1⟩
  have hle := (hnodup.subperm hways).length_le
  rw [List.length_cons, hr.length_ways] at hle
  exact hle

/-- Nothing on a walk that is not broken off tries more than the nodes. -/
theorem Reachable.attempts_lt {r : Router α} (h : Reachable r) (host path : String) :
    attempts (r.events host path) < r.nodeCount := by
  have honce := r.noted_triesOnce Visitor.recorder host path (attempts (r.events host path)) []
  have hwalked := r.walked_toProgress Visitor.recorder host path (attempts (r.events host path)) []
  rw [play_recorder (Nat.le_refl _), walked_eq_noted] at hwalked
  -- A survey with as many steps as attempts has none left, and so it has noted as many nodes.
  have hleft := congrArg Progress.stepsLeft hwalked
  have hnone : (r.noted Visitor.recorder host path (attempts (r.events host path)) []).stepsLeft = 0 :=
    hleft.trans (Nat.sub_self _)
  have hspent := honce.spent
  have hlt := honce.lt h
  omega

/-! ## The nodes of a reachable router -/

theorem Reachable.ways_nodup {r : Router α} (h : Reachable r) : r.ways.Nodup := by
  refine Trie.ways_nodup h.inShape.sorted fun path s hs => ?_
  have hends := (h.inShape path s hs).good.hosts
  rw [PathEnd.ways]
  cases hhosts : s.leaf.hosts? with
  | none => exact ⟨List.nodup_nil, fun way hway => (List.not_mem_nil hway).elim⟩
  | some hosts =>
    have hnodup : (hosts.ways fun _ => []).Nodup :=
      Trie.ways_nodup (hends hosts hhosts).nodes.sorted
        fun _ _ _ => ⟨List.nodup_nil, fun way hway => (List.not_mem_nil hway).elim⟩
    refine ⟨hnodup.map List.cons_injective, fun way hway => ?_⟩
    obtain ⟨more, -, rfl⟩ := List.mem_map.mp hway
    rfl

/-- A search tries each node of a reachable router at most once, and so spends fewer steps than there
are nodes. With as many it does not run out of them, and more steps give it nothing new. -/
theorem Reachable.nodes_tried_once {r : Router α} (h : Reachable r) (req : Request) :
    (r.ways.Nodup ∧ r.ways.length = r.nodeCount) ∧
      r.walked req.visitor req.host req.path r.config.maxMatchSteps {}
        = (r.noted req.visitor req.host req.path r.config.maxMatchSteps {}).withoutNotes ∧
      r.TriesOnce r.config.maxMatchSteps
        (r.noted req.visitor req.host req.path r.config.maxMatchSteps {}) ∧
      r.config.maxMatchSteps ≤ (r.nodeCount - 1)
        + (r.walked req.visitor req.host req.path r.config.maxMatchSteps {}).stepsLeft ∧
      (r.nodeCount - 1 ≤ r.config.maxMatchSteps → (r.find req).exhausted = false ∧
        ∀ more, (r.withSteps (r.config.maxMatchSteps + more)).find req = r.find req) := by
  have honce := r.noted_triesOnce req.visitor req.host req.path r.config.maxMatchSteps {}
  have hwalked := r.walked_eq_noted req.visitor req.host req.path r.config.maxMatchSteps {}
  refine ⟨⟨h.ways_nodup, h.length_ways⟩, hwalked, honce, ?_, fun henough => ?_⟩
  · have hlt := honce.lt h
    have hspent := honce.spent
    have hleft := congrArg (fun w => w.stepsLeft) hwalked
    change _ = (r.noted req.visitor req.host req.path r.config.maxMatchSteps {}).stepsLeft at hleft
    omega
  · have hlt := h.attempts_lt req.host req.path
    have hexhausted : (r.find req).exhausted = false := by
      rw [find_eq_play]
      exact req.visitor.play_of_attempts_le rfl (by show _ ≤ r.config.maxMatchSteps; omega)
    refine ⟨hexhausted, fun more => ?_⟩
    rcases r.find_withMore req more with ⟨-, hsame⟩ | ⟨htrue, -⟩
    · exact hsame
    · exact absurd (hexhausted.symm.trans htrue) Bool.false_ne_true

/-- A search in vain comes by six of the fourteen nodes, three of them in a trie of hosts. -/
theorem nodes_tried_once_shelf : Reachable shelf ∧ shelf.nodeCount = 14 ∧
    shelf.TriesOnce 10000 (shelf.noted (Request.visitor ⟨.delete, "api.a.org", "/books/7", .empty⟩)
      "api.a.org" "/books/7" 10000 {}) ∧
    (shelf.noted (Request.visitor ⟨.delete, "api.a.org", "/books/7", .empty⟩)
      "api.a.org" "/books/7" 10000 {}).seen.tried.map List.length = [1, 2, 4, 5, 6, 2] ∧
    ∀ more, (shelf.withSteps (10000 + more)).find ⟨.delete, "api.a.org", "/books/7", .empty⟩
      = shelf.find ⟨.delete, "api.a.org", "/books/7", .empty⟩ := by
  have hruns : shelf.nodeCount = 14 ∧ shelf.config.maxMatchSteps = 10000 ∧
      (shelf.noted (Request.visitor ⟨.delete, "api.a.org", "/books/7", .empty⟩)
        "api.a.org" "/books/7" 10000 {}).seen.tried.map List.length = [1, 2, 4, 5, 6, 2] := by
    decide +kernel
  obtain ⟨hcount, hsteps, htried⟩ := hruns
  obtain ⟨-, -, honce, -, hmore⟩ :=
    Reachable.nodes_tried_once shelf_reachable ⟨.delete, "api.a.org", "/books/7", .empty⟩
  rw [hcount, hsteps] at hmore
  rw [hsteps] at honce
  exact ⟨shelf_reachable, hcount, honce, htried, (hmore (by decide)).2⟩

end Router
end UriRouting
