import UriRouting.Proofs.Trie.Arrivals
import UriRouting.Router.Basic
/-!
What is attached at the end of a path.

An attachment is an entry with a host or for every host. Attaching one after the other lists the
entries for every host and builds a trie of hosts; each list holds an entry once, in the order of the
places.
-/

namespace UriRouting

variable {α : Type}

/-! ## Attaching -/

/-- An entry to be attached at a host or for every host. -/
abbrev Attachment (α : Type) := Entry α × Option (List Key)

def PathEnd.extend (p : PathEnd α) (l : List (Attachment α)) : PathEnd α :=
  l.foldl (fun p a => p.attach a.1 a.2) p

theorem attachAll_eq (e : Entry α) (hosts : List (Option (List Key))) (p : PathEnd α) :
    (p.attachAll e hosts).1 = p.extend (hosts.map fun host? => (e, host?)) := by
  induction hosts generalizing p with
  | nil => rfl
  | cons host? rest ih => exact ih _

def hostless (l : List (Attachment α)) : List (Entry α) :=
  l.filterMap fun a => match a.2 with
    | none => some a.1
    | some _ => none

def hostEdits (l : List (Attachment α)) : List (Edit (List (Entry α))) :=
  l.filterMap fun a => a.2.map fun host => ⟨host, attach a.1⟩

theorem mem_hostless {l : List (Attachment α)} {e : Entry α} : e ∈ hostless l ↔ (e, none) ∈ l := by
  unfold hostless
  rw [List.mem_filterMap]
  constructor
  · intro h
    obtain ⟨⟨e', host?⟩, ha, h⟩ := h
    cases host? with
    | none =>
      cases h
      exact ha
    | some host => cases h
  · intro h
    exact ⟨(e, none), h, rfl⟩

def listed (es : List (Entry α)) : List (Entry α) := es.foldl (fun l e => attach e l) []

theorem listed_concat (es : List (Entry α)) (e : Entry α) :
    listed (es ++ [e]) = attach e (listed es) := by
  unfold listed
  rw [List.foldl_append]
  rfl

/-! ### Places held -/

theorem holdsEntry_iff {n : Nat} {es : List (Entry α)} :
    holdsEntry n es = true ↔ ∃ e ∈ es, e.position = n := by
  simp [holdsEntry]

theorem holdsEntry_attach_iff (n : Nat) (e : Entry α) (es : List (Entry α)) :
    holdsEntry n (attach e es) = true ↔ holdsEntry n es = true ∨ e.position = n := by
  unfold attach
  split
  · next h =>
    refine ⟨Or.inl, fun hn => hn.elim id fun hposition => ?_⟩
    exact hposition ▸ h
  · simp [holdsEntry, or_comm]

theorem holdsEntry_listed_iff (n : Nat) (es : List (Entry α)) :
    holdsEntry n (listed es) = true ↔ ∃ e ∈ es, e.position = n := by
  induction es using List.reverseRecOn with
  | nil => simp [holdsEntry, listed]
  | append_singleton es e ih =>
    rw [listed_concat, holdsEntry_attach_iff, ih]
    simp only [List.mem_append, List.mem_singleton, or_and_right, exists_or, exists_eq_left]

/-! ### Ends -/

/-- What attachments leave at an end that is empty at first. -/
theorem extend_spec (l : List (Attachment α)) :
    (PathEnd.extend {} l).entries = listed (hostless l) ∧
      (PathEnd.extend {} l).hosts?
        = if hostEdits l = [] then none else some (Trie.build [] (hostEdits l)) := by
  induction l using List.reverseRecOn with
  | nil => exact ⟨rfl, rfl⟩
  | append_singleton l a ih =>
    obtain ⟨e, host?⟩ := a
    obtain ⟨hentries, hhosts⟩ := ih
    have hstep : PathEnd.extend {} (l ++ [(e, host?)]) = (PathEnd.extend {} l).attach e host? := by
      unfold PathEnd.extend
      rw [List.foldl_append]
      rfl
    rw [hstep]
    cases host? with
    | none =>
      have hless : hostless (l ++ [(e, none)]) = hostless l ++ [e] := List.filterMap_append
      have hedits : hostEdits (l ++ [(e, none)]) = hostEdits l := by
        unfold hostEdits
        rw [List.filterMap_append]
        exact List.append_nil _
      rw [hless, hedits, listed_concat, ← hentries, ← hhosts]
      exact ⟨rfl, rfl⟩
    | some host =>
      have hless : hostless (l ++ [(e, some host)]) = hostless l := by
        unfold hostless
        rw [List.filterMap_append]
        exact List.append_nil _
      have hedits : hostEdits (l ++ [(e, some host)]) = hostEdits l ++ [⟨host, attach e⟩] :=
        List.filterMap_append
      rw [hless, hedits, build_concat, ← hentries, if_neg (by simp)]
      refine ⟨rfl, ?_⟩
      rw [PathEnd.attach, hhosts]
      split
      · next hnil => rw [hnil]; rfl
      · rfl

/-! ## Lists without repetition -/

/-- Entries in the order of their places, perhaps several times each. -/
def Ranked (es : List (Entry α)) : Prop := es.Pairwise fun a b => a = b ∨ a.position < b.position

/-- Attaching entries in order keeps each once and in order. -/
theorem listed_spec {es : List (Entry α)} (h : Ranked es) :
    (∀ e, e ∈ listed es ↔ e ∈ es) ∧ (listed es).Pairwise fun a b => a.position < b.position := by
  induction es using List.reverseRecOn with
  | nil => exact ⟨fun e => Iff.rfl, List.Pairwise.nil⟩
  | append_singleton es e ih =>
    obtain ⟨hes, -, hlast⟩ := List.pairwise_append.mp h
    obtain ⟨hmem, hpairs⟩ := ih hes
    rw [listed_concat, attach]
    by_cases hholds : holdsEntry e.position (listed es) = true
    · obtain ⟨e', he', hposition⟩ := List.any_eq_true.mp hholds
      rw [decide_eq_true_eq] at hposition
      have hsame : e' = e := by
        rcases hlast e' ((hmem e').mp he') e List.mem_cons_self with h | h
        · exact h
        · omega
      rw [if_pos hholds]
      refine ⟨fun a => ?_, hpairs⟩
      rw [hmem, List.mem_append, List.mem_singleton]
      refine ⟨Or.inl, ?_⟩
      intro h
      rcases h with ha | rfl
      · exact ha
      · rw [← hsame, ← hmem]
        exact he'
    · rw [if_neg hholds]
      refine ⟨fun a => by rw [List.mem_append, List.mem_append, hmem], ?_⟩
      refine List.pairwise_append.mpr ⟨hpairs, List.pairwise_singleton _ e, fun a ha b hb => ?_⟩
      rw [List.mem_singleton] at hb
      subst hb
      rcases hlast a ((hmem a).mp ha) b List.mem_cons_self with h | h
      · refine absurd (List.any_eq_true.mpr ⟨a, ha, ?_⟩) hholds
        rw [decide_eq_true_eq, h]
      · exact h

/-! ## The ends of hosts -/

open Classical in
/-- The entries that are attached at a host. -/
noncomputable def atHost (host : List Key) (l : List (Attachment α)) : List (Entry α) :=
  l.filterMap fun a => if a.2 = some host then some a.1 else none

theorem mem_atHost {host : List Key} {l : List (Attachment α)} {e : Entry α} :
    e ∈ atHost host l ↔ (e, some host) ∈ l := by
  unfold atHost
  rw [List.mem_filterMap]
  constructor
  · intro h
    obtain ⟨⟨e', host?⟩, ha, h⟩ := h
    split at h
    · next heq =>
      cases heq
      cases h
      exact ha
    · cases h
  · intro h
    exact ⟨(e, some host), h, if_pos rfl⟩

theorem mem_hostEdits {l : List (Attachment α)} {edit : Edit (List (Entry α))} :
    edit ∈ hostEdits l ↔ ∃ e host, (e, some host) ∈ l ∧ edit = ⟨host, attach e⟩ := by
  unfold hostEdits
  rw [List.mem_filterMap]
  constructor
  · intro h
    obtain ⟨⟨e, host?⟩, ha, h⟩ := h
    obtain ⟨host, rfl, rfl⟩ := Option.map_eq_some_iff.mp h
    exact ⟨e, host, ha, rfl⟩
  · intro h
    obtain ⟨e, host, ha, rfl⟩ := h
    exact ⟨(e, some host), ha, rfl⟩

theorem valueAt_hostEdits {S : Key → Prop} (hS : Sharp S) {host : List Key} (hhost : ∀ k ∈ host, S k)
    {l : List (Attachment α)} (hE : Over S (hostEdits l)) :
    valueAt [] host (hostEdits l) = listed (atHost host l) := by
  rw [valueAt_eq_foldl [] hS hhost hE, hostEdits, listed, atHost, List.foldl_filterMap,
    List.foldl_filterMap]
  refine List.foldl_ext _ _ _ fun es a ha => ?_
  obtain ⟨e, host?⟩ := a
  cases host? with
  | none => simp only [Option.map_none, reduceCtorEq, if_false]
  | some host' =>
    by_cases heq : host' = host
    · rw [Option.map_some, if_pos (congrArg some heq)]
      exact if_pos heq
    · rw [Option.map_some, if_neg fun h => heq (Option.some.inj h)]
      exact if_neg heq

theorem Ranked.filterMap {l : List (Attachment α)} {f : Attachment α → Option (Entry α)}
    (h : l.Pairwise fun a b => a.1 = b.1 ∨ a.1.position < b.1.position)
    (hf : ∀ a e, f a = some e → e = a.1) : Ranked (l.filterMap f) := by
  refine h.filterMap f fun a b hab e he e' he' => ?_
  rw [hf a e he, hf b e' he']
  exact hab

theorem ranked_hostless {l : List (Attachment α)}
    (h : l.Pairwise fun a b => a.1 = b.1 ∨ a.1.position < b.1.position) : Ranked (hostless l) := by
  refine Ranked.filterMap h fun a e he => ?_
  split at he
  · exact (Option.some.inj he).symm
  · cases he

theorem ranked_atHost {l : List (Attachment α)}
    (h : l.Pairwise fun a b => a.1 = b.1 ∨ a.1.position < b.1.position) (host : List Key) :
    Ranked (atHost host l) := by
  refine Ranked.filterMap h fun a e he => ?_
  split at he
  · exact (Option.some.inj he).symm
  · cases he

end UriRouting
