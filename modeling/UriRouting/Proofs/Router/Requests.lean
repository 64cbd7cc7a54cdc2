import Mathlib.Data.List.DropRight
import UriRouting.Proofs.Route.Suffixes
import UriRouting.Proofs.Router.Budget
import UriRouting.Proofs.Router.RoundTrip
/-!
Requests that are written in different ways.

Slashes at the ends of a path, the case of ASCII letters in a host, and periods and a port behind a host are gone
before a walk begins. A route without constraints sees nothing else of a request than its method, so that a search
cannot tell these requests apart: `Reachable.find_normalized`.
-/

namespace UriRouting

namespace Text

/-! ## Trimming -/

section

variable {p : Char → Bool}

theorem trimEnd_isPrefix (p : Char → Bool) (cs : List Char) : trimEnd p cs <+: cs :=
  List.rdropWhile_prefix p cs

theorem trimEnd_append_of_all {back : List Char} (h : ∀ c ∈ back, p c = true) (front : List Char) :
    trimEnd p (front ++ back) = trimEnd p front := by
  rw [trimEnd, List.reverse_append, List.dropWhile_append_of_pos fun c hc => h c (List.mem_reverse.mp hc)]
  rfl

theorem trimEnd_trimEnd (cs : List Char) : trimEnd p (trimEnd p cs) = trimEnd p cs :=
  List.rdropWhile_idempotent p cs

theorem trimEnd_map {f : Char → Char} (h : ∀ c, p (f c) = p c) (cs : List Char) :
    trimEnd p (cs.map f) = (trimEnd p cs).map f := by
  have hp : p ∘ f = p := funext h
  rw [trimEnd, trimEnd, ← List.map_reverse, List.dropWhile_map, hp, List.map_reverse]

/-- What is trimmed makes no difference at the ends of a text. -/
theorem trimBoth_surround {front back : List Char} (hfront : ∀ c ∈ front, p c = true)
    (hback : ∀ c ∈ back, p c = true) (cs : List Char) : trimBoth p (front ++ cs ++ back) = trimBoth p cs := by
  rw [trimBoth, trimBoth, List.append_assoc, List.dropWhile_append_of_pos hfront, List.dropWhile_append]
  split
  · next hnil =>
    have hnil : cs.dropWhile p = [] := List.isEmpty_iff.mp hnil
    have hall : back.dropWhile p = [] := List.dropWhile_eq_nil_iff.mpr hback
    rw [hnil, hall]
  · exact trimEnd_append_of_all hback _

theorem trimBoth_trimBoth (cs : List Char) : trimBoth p (trimBoth p cs) = trimBoth p cs := by
  by_cases h : trimBoth p cs = []
  · rw [h]
    rfl
  · have hstart := dropWhile_trimBoth h []
    rw [List.append_nil] at hstart
    rw [trimBoth, hstart]
    exact trimEnd_trimEnd _

end

/-- A bracket is no letter in either case. -/
theorem toLower_eq_mark {c d : Char} (h : 0x5A < d.toNat ∧ d.toNat < 0x61) : c.toLower = d ↔ c = d := by
  rw [← Char.toNat_inj, ← Char.toNat_inj (c := c), toNat_toLower]
  split <;> omega

theorem toLower_toLower (c : Char) : c.toLower.toLower = c.toLower := by
  rw [← Char.toNat_inj, toNat_toLower, toNat_toLower]
  split_ifs <;> omega

end Text

open Text

/-! ## Hosts -/

/-- A host without a port: a name, or an address in brackets. -/
inductive BareHost : List Char → Prop
  | name {cs : List Char} (colon : ':' ∉ cs) (bracket : cs.head? ≠ some '[') : BareHost cs
  | address {cs : List Char} (closing : ']' ∉ cs) : BareHost ('[' :: (cs ++ [']']))

theorem withoutPort_of_head {cs : List Char} (h : cs.head? ≠ some '[') :
    withoutPort cs = cs.takeWhile (· ≠ ':') := by
  unfold withoutPort
  split
  · exact absurd rfl h
  · rfl

theorem withoutPort_bracket (cs : List Char) :
    withoutPort ('[' :: cs) = if ']' ∈ cs then '[' :: (cs.takeWhile (· ≠ ']') ++ [']']) else '[' :: cs := rfl

theorem withoutPort_address {cs : List Char} (h : ']' ∉ cs) (rest : List Char) :
    withoutPort ('[' :: (cs ++ ']' :: rest)) = '[' :: (cs ++ [']']) := by
  have htake : (cs ++ ']' :: rest).takeWhile (· ≠ ']') = cs := by
    have hplain : ∀ c ∈ cs, decide (c ≠ ']') = true := fun c hc => decide_eq_true fun hclosing => h (hclosing ▸ hc)
    rw [List.takeWhile_append_of_pos hplain, List.takeWhile_cons_of_neg (by simp), List.append_nil]
  rw [withoutPort_bracket, if_pos (by simp), htake]

theorem withoutPort_name {cs : List Char} (hcolon : ':' ∉ cs) (hbracket : cs.head? ≠ some '[') :
    withoutPort cs = cs := by
  rw [withoutPort_of_head hbracket]
  exact List.takeWhile_eq_self_iff.mpr fun c hc => decide_eq_true fun h => hcolon (h ▸ hc)

/-- What is left of a host is bare, or a bracket in it is never closed. -/
theorem withoutPort_cases (cs : List Char) :
    BareHost (withoutPort cs) ∨ ∃ rest, withoutPort cs = '[' :: rest ∧ ']' ∉ rest := by
  by_cases h : cs.head? = some '['
  · obtain ⟨rest, rfl⟩ := List.head?_eq_some_iff.mp h
    rw [withoutPort_bracket]
    split
    · refine Or.inl (.address fun hmem => ?_)
      have hne := List.mem_takeWhile_imp hmem
      simp at hne
    · next hclosing => exact Or.inr ⟨rest, rfl, hclosing⟩
  · rw [withoutPort_of_head h]
    refine Or.inl (.name (fun hmem => ?_) fun hhead => h ?_)
    · have hne := List.mem_takeWhile_imp hmem
      simp at hne
    · obtain ⟨front, hfront⟩ := List.head?_eq_some_iff.mp hhead
      obtain ⟨back, hback⟩ := List.takeWhile_prefix (l := cs) (p := (· ≠ ':'))
      rw [← hback, hfront]
      rfl

/-- Periods and a port behind a bare host are cut off. -/
theorem BareHost.trimEnd_withoutPort {cs : List Char} (h : BareHost cs) {periods port : List Char}
    (hperiods : ∀ c ∈ periods, c = '.') (hport : port = [] ∨ ∃ text, port = ':' :: text) :
    trimEnd (· = '.') (withoutPort (cs ++ (periods ++ port))) = trimEnd (· = '.') (withoutPort cs) := by
  cases h with
  | name colon bracket =>
    have htake : (cs ++ (periods ++ port)).takeWhile (· ≠ ':') = cs ++ periods := by
      have hstop : port.takeWhile (· ≠ ':') = [] := by
        obtain rfl | ⟨text, rfl⟩ := hport
        · rfl
        · exact List.takeWhile_cons_of_neg (by simp)
      have hplain : ∀ c ∈ cs ++ periods, decide (c ≠ ':') = true := by
        refine List.forall_mem_append.mpr ⟨fun c hc => decide_eq_true fun h => colon (h ▸ hc), fun c hc => ?_⟩
        rw [hperiods c hc]
        decide
      rw [← List.append_assoc, List.takeWhile_append_of_pos hplain, hstop, List.append_nil]
    have hhead : (cs ++ (periods ++ port)).head? ≠ some '[' := by
      rw [List.head?_append]
      cases cs with
      | cons c cs => exact bracket
      | nil =>
        cases periods with
        | cons c periods =>
          rw [hperiods c List.mem_cons_self]
          simp
        | nil => obtain rfl | ⟨text, rfl⟩ := hport <;> simp
    rw [withoutPort_of_head hhead, htake, withoutPort_name colon bracket]
    exact trimEnd_append_of_all (fun c hc => decide_eq_true (hperiods c hc)) cs
  | @address cs closing =>
    have hcs : '[' :: (cs ++ [']']) ++ (periods ++ port) = '[' :: (cs ++ ']' :: (periods ++ port)) := by simp
    rw [hcs, withoutPort_address closing, withoutPort_address closing]

/-- A host that was cut and trimmed once is left alone. -/
theorem withoutPort_trimEnd (cs : List Char) :
    withoutPort (trimEnd (· = '.') (withoutPort cs)) = trimEnd (· = '.') (withoutPort cs) := by
  obtain hbare | ⟨rest, hrest, hclosing⟩ := withoutPort_cases cs
  · generalize withoutPort cs = host at hbare ⊢
    have hstart := trimEnd_isPrefix (· = '.') host
    cases hbare with
    | name colon bracket =>
      refine withoutPort_name (fun hmem => colon (hstart.subset hmem)) fun hhead => bracket ?_
      obtain ⟨front, hfront⟩ := List.head?_eq_some_iff.mp hhead
      obtain ⟨back, hback⟩ := hstart
      rw [← hback, hfront]
      rfl
    | @address cs closing =>
      have htrim : trimEnd (· = '.') ('[' :: (cs ++ [']'])) = '[' :: (cs ++ [']']) := by
        rw [← List.cons_append]
        exact List.rdropWhile_concat_neg _ _ _ (by simp)
      rw [htrim]
      exact withoutPort_address closing []
  · have htrim : trimEnd (· = '.') ('[' :: rest) = '[' :: trimEnd (· = '.') rest := by
      by_cases hnil : trimEnd (· = '.') rest = []
      · rw [hnil, trimEnd, List.reverse_cons]
        have hdrop : rest.reverse.dropWhile (· = '.') = [] := by simpa [trimEnd] using hnil
        rw [List.dropWhile_append, hdrop]
        rfl
      · exact trimEnd_append ['['] hnil
    have hopen : ']' ∉ trimEnd (· = '.') rest := fun hmem => hclosing ((trimEnd_isPrefix _ rest).subset hmem)
    rw [hrest, htrim, withoutPort_bracket, if_neg hopen]

theorem withoutPort_toLower (cs : List Char) :
    withoutPort (cs.map Char.toLower) = (withoutPort cs).map Char.toLower := by
  have hopening : ∀ c : Char, c.toLower = '[' ↔ c = '[' := fun c => toLower_eq_mark (by decide)
  have hclosing : ∀ c : Char, c.toLower = ']' ↔ c = ']' := fun c => toLower_eq_mark (by decide)
  have hcolon : ∀ c : Char, c.toLower = ':' ↔ c = ':' := fun c => toLower_eq_low (by decide)
  by_cases h : cs.head? = some '['
  · obtain ⟨rest, rfl⟩ := List.head?_eq_some_iff.mp h
    have hmem : ']' ∈ rest.map Char.toLower ↔ ']' ∈ rest := by simp [hclosing]
    have hlower : ('[' :: rest).map Char.toLower = '[' :: rest.map Char.toLower := rfl
    rw [hlower, withoutPort_bracket, withoutPort_bracket, List.takeWhile_map]
    simp only [hmem, Function.comp_def, ne_eq, hclosing]
    split
    · rw [List.map_cons, List.map_append]
      rfl
    · rfl
  · have hhead : (cs.map Char.toLower).head? ≠ some '[' := by
      rw [List.head?_map]
      cases hcs : cs.head? with
      | none => simp
      | some c =>
        rw [hcs, Option.some_inj] at h
        simpa [hopening] using h
    rw [withoutPort_of_head h, withoutPort_of_head hhead, List.takeWhile_map]
    simp only [Function.comp_def, ne_eq, hcolon]

/-- Letters of a host may be in either case. -/
theorem normalizeHost_congr {host host' : String} (h : lowercaseAscii host = lowercaseAscii host') :
    normalizeHost host = normalizeHost host' := by
  have hperiod : ∀ c : Char, decide (c.toLower = '.') = decide (c = '.') := fun c => by
    simp only [toLower_eq_low (c := c) (d := '.') (by decide)]
  have hlower : ∀ host : String, normalizeHost host
      = String.ofList (trimEnd (· = '.') (withoutPort (lowercaseAscii host).toList)) := by
    intro host
    rw [normalizeHost, lowercaseAscii, String.toList_ofList, withoutPort_toLower, trimEnd_map hperiod]
  rw [hlower, hlower, h]

theorem normalizeHost_suffix {host : String} (h : BareHost host.toList) {periods port : String}
    (hperiods : ∀ c ∈ periods.toList, c = '.') (hport : port = "" ∨ ∃ text, port = ":" ++ text) :
    normalizeHost (host ++ periods ++ port) = normalizeHost host := by
  have hport : port.toList = [] ∨ ∃ text, port.toList = ':' :: text := by
    obtain rfl | ⟨text, rfl⟩ := hport
    · exact Or.inl rfl
    · exact Or.inr ⟨text.toList, by simp⟩
  have hhost : (host ++ periods ++ port).toList = host.toList ++ (periods.toList ++ port.toList) := by simp
  rw [normalizeHost, hhost, h.trimEnd_withoutPort hperiods hport]
  rfl

theorem normalizeHost_normalizeHost (host : String) :
    normalizeHost (normalizeHost host) = normalizeHost host := by
  have hlower : lowercaseAscii (normalizeHost host)
      = lowercaseAscii (String.ofList (trimEnd (· = '.') (withoutPort host.toList))) := by
    rw [lowercaseAscii, lowercaseAscii, normalizeHost, String.toList_ofList, String.toList_ofList, List.map_map]
    congr 2
    funext c
    exact toLower_toLower c
  rw [normalizeHost_congr hlower, normalizeHost, String.toList_ofList, withoutPort_trimEnd, trimEnd_trimEnd]
  rfl

theorem labelsOf_congr {host host' : String} (h : normalizeHost host = normalizeHost host') :
    labelsOf host = labelsOf host' := by
  rw [labelsOf, h, labelsOf]

/-! ## Paths -/

theorem segmentsOfPath_surround {before after : String} (hbefore : ∀ c ∈ before.toList, c = '/')
    (hafter : ∀ c ∈ after.toList, c = '/') (path : String) :
    segmentsOfPath (before ++ path ++ after) = segmentsOfPath path := by
  have htrim : trimBoth UriTemplate.isSlash (before ++ path ++ after).toList
      = trimBoth UriTemplate.isSlash path.toList := by
    rw [String.toList_append, String.toList_append]
    exact trimBoth_surround (fun c hc => decide_eq_true (hbefore c hc))
      (fun c hc => decide_eq_true (hafter c hc)) path.toList
  rw [segmentsOfPath, htrim, segmentsOfPath]

theorem toList_intercalate (sep : Char) (pieces : List (List Char)) :
    ((String.singleton sep).intercalate (pieces.map String.ofList)).toList = joinWith sep pieces := by
  induction pieces with
  | nil => rfl
  | cons piece pieces ih =>
    cases pieces with
    | nil => simp [joinWith]
    | cons piece' pieces =>
      have hjoin : joinWith sep (piece :: piece' :: pieces) = piece ++ sep :: joinWith sep (piece' :: pieces) := rfl
      rw [List.map_cons, List.map_cons, String.intercalate_cons_cons, ← List.map_cons, String.toList_append,
        String.toList_append, ih, hjoin]
      simp

/-- The segments of a path, with slashes between them, are the segments of what they make. -/
theorem segmentsOfPath_intercalate (path : String) :
    segmentsOfPath ("/".intercalate (segmentsOfPath path)) = segmentsOfPath path := by
  have hjoin : ("/".intercalate (segmentsOfPath path)).toList = trimBoth UriTemplate.isSlash path.toList := by
    rw [segmentsOfPath, piecesOf]
    split
    · next hnil =>
      rw [hnil]
      rfl
    · exact (toList_intercalate '/' _).trans (joinWith_splitAt '/' _)
  rw [segmentsOfPath, hjoin, trimBoth_trimBoth, segmentsOfPath]

/-! ## Searches -/

namespace Router

variable {α : Type} {r : Router α}

/-- A route without constraints does not look at the host and the path of a request. -/
theorem consider_congr {req req' : Request} (hmethod : req.method = req'.method) {e : Entry α}
    (he : e.route.constraints = []) (captures : Captures) (v : Verdict α) :
    req.consider e captures v = req'.consider e captures v := by
  have hpass : ∀ cx, e.route.constraintsPass cx = true := fun cx => by rw [Route.constraintsPass, he]; rfl
  have hlog : ∀ cx, logConstraints cx e.route.constraints = [] := fun cx => by rw [he]; rfl
  rw [Request.consider_run, Request.consider_run, hmethod]
  simp only [hpass, hlog, Verdict.note]

theorem play_congr {req req' : Request} (hmethod : req.method = req'.method) {es : List (Event (Entry α))}
    (hes : ∀ v ∈ es.filterMap Event.end?, v.1.route.constraints = []) (p : Progress (Verdict α)) :
    req.visitor.play es p = req'.visitor.play es p := by
  induction es generalizing p with
  | nil => rfl
  | cons e es ih =>
    cases e with
    | attempt =>
      rw [Visitor.play, Visitor.play]
      cases p.stepsLeft with
      | zero => rfl
      | succ n => exact ih hes _
    | question e => exact ih hes _
    | visit found captures =>
      have hends : (Event.visit found captures :: es).filterMap Event.end?
          = (found, captures) :: es.filterMap Event.end? := rfl
      rw [hends] at hes
      obtain ⟨hfound, hes⟩ := List.forall_mem_cons.mp hes
      have hvisit : req.visitor.visit found captures p.seen = req'.visitor.visit found captures p.seen :=
        consider_congr hmethod hfound captures p.seen
      rw [Visitor.play, Visitor.play, hvisit]
      cases req'.visitor.visit found captures p.seen with
      | ok _ seen => exact ih hes _
      | error _ seen => rfl

/-- Without constraints, a search depends on the method, the labels and the segments of a request. -/
theorem Reachable.find_congr (h : Reachable r) (hfree : ∀ e ∈ r.entries, e.route.constraints = [])
    {req req' : Request} (hmethod : req.method = req'.method) (hlabels : labelsOf req.host = labelsOf req'.host)
    (hsegments : segmentsOfPath req.path = segmentsOfPath req'.path) : r.find req = r.find req' := by
  have hevents : r.events req.host req.path = r.events req'.host req'.path := by
    rw [events, hlabels, hsegments, events]
  have hes : ∀ v ∈ (r.events req'.host req'.path).filterMap Event.end?, v.1.route.constraints = [] := by
    rw [filterMap_end?_routerEvents]
    intro v hv
    obtain ⟨c, hc, rfl⟩ := List.mem_map.mp hv
    exact hfree _ (h.entry_mem hc)
  rw [find_eq_play, find_eq_play, hevents, play_congr hmethod hes]

/-- Where no route has constraints, a search finds the same, the same way, however the ends of the path, the letters
of the host and what is behind a bare host are written. A host that is written as a walk takes it stays so, and so
do the segments of a path. -/
theorem Reachable.find_normalized (h : Reachable r) (hfree : ∀ e ∈ r.entries, e.route.constraints = []) :
    (∀ (req : Request) (before after : String), (∀ c ∈ before.toList, c = '/') → (∀ c ∈ after.toList, c = '/') →
      r.find { req with path := before ++ req.path ++ after } = r.find req) ∧
    (∀ (req : Request) (host : String), lowercaseAscii host = lowercaseAscii req.host →
      r.find { req with host } = r.find req) ∧
    (∀ (req : Request) (periods port : String), BareHost req.host.toList → (∀ c ∈ periods.toList, c = '.') →
      (port = "" ∨ ∃ text, port = ":" ++ text) →
      r.find { req with host := req.host ++ periods ++ port } = r.find req) ∧
    (∀ host, normalizeHost (normalizeHost host) = normalizeHost host) ∧
    ∀ path, segmentsOfPath ("/".intercalate (segmentsOfPath path)) = segmentsOfPath path := by
  refine ⟨fun req before after hbefore hafter => ?_, fun req host hletters => ?_,
    fun req periods port hbare hperiods hport => ?_, normalizeHost_normalizeHost, segmentsOfPath_intercalate⟩
  · exact h.find_congr hfree rfl rfl (segmentsOfPath_surround hbefore hafter req.path)
  · exact h.find_congr hfree rfl (labelsOf_congr (normalizeHost_congr hletters)) rfl
  · exact h.find_congr hfree rfl (labelsOf_congr (normalizeHost_suffix hbare hperiods hport)) rfl

/-- A route for some hosts, and one for every host, at an address. -/
theorem find_normalized_shelf : Reachable shelf ∧ (∀ e ∈ shelf.entries, e.route.constraints = []) ∧
    shelf.find ⟨.get, "API.a.ORG", "/books/7", .empty⟩ = shelf.find ⟨.get, "api.A.org", "/books/7", .empty⟩ ∧
    shelf.find ⟨.get, "api.a.org" ++ ".." ++ ":8080", "/books/7", .empty⟩
      = shelf.find ⟨.get, "api.a.org", "/books/7", .empty⟩ ∧
    shelf.find ⟨.post, "[::1]" ++ "." ++ ":[", "//" ++ "books/7" ++ "/", .empty⟩
      = shelf.find ⟨.post, "[::1]", "books/7", .empty⟩ ∧
    (shelf.find ⟨.post, "[::1]", "books/7", .empty⟩).result.found?.map (fun found => found.1.position) = some 1 := by
  have hruns : shelf.entries.all (fun e => e.route.constraints.isEmpty) = true ∧
      (shelf.find ⟨.post, "[::1]", "books/7", .empty⟩).result.found?.map
        (fun found => found.1.position) = some 1 := by decide +kernel
  obtain ⟨hfree, hfound⟩ := hruns
  have hfree : ∀ e ∈ shelf.entries, e.route.constraints = [] := fun e he =>
    List.isEmpty_iff.mp (List.all_eq_true.mp hfree e he)
  have hnormalized := shelf_reachable.find_normalized hfree
  obtain ⟨hslashes, hletters, hbehind, -⟩ := hnormalized
  refine ⟨shelf_reachable, hfree, ?_, ?_, ?_, hfound⟩
  · exact hletters ⟨.get, "api.A.org", "/books/7", .empty⟩ "API.a.ORG" (by decide)
  · exact hbehind ⟨.get, "api.a.org", "/books/7", .empty⟩ ".." ":8080" (.name (by decide) (by decide)) (by simp)
      (Or.inr ⟨"8080", by decide⟩)
  · have hbare : BareHost "[::1]".toList := @BareHost.address "::1".toList (by decide)
    have hport := hbehind ⟨.post, "[::1]", "//" ++ "books/7" ++ "/", .empty⟩ "." ":[" hbare (by simp)
      (Or.inr ⟨"[", by decide⟩)
    exact hport.trans (hslashes ⟨.post, "[::1]", "books/7", .empty⟩ "//" "/" (by simp) (by simp))

end Router

end UriRouting
