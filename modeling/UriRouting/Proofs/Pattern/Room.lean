import Mathlib.Data.List.SplitBy
import UriRouting.Trie.Key
/-!
How much room the patterns of segments take.

Sharing states saves room, so that a bound need not know which states are shared: `Takes` says how much
room a step of a layout adds at most, whatever the table of shared states holds. A variable behind a
short text or another variable is far below the limit: `SegmentPattern.fits_pair`.
-/

namespace UriRouting

/-! ## Layouts -/

namespace Layout

@[simp] theorem room_addStates (l : Layout) (n : Nat) : (l.addStates n).room = l.room + 32 * n := by
  simp only [addStates, room]
  omega

@[simp] theorem room_addRanges (l : Layout) (n : Nat) : (l.addRanges n).room = l.room + (32 + 8 * n) := by
  simp only [addRanges, room]
  omega

@[simp] theorem room_addFork (l : Layout) (n : Nat) : (l.addFork n).room = l.room + (32 + 4 * n) := by
  simp only [addFork, room]
  omega

theorem room_addArrow_le (l : Layout) (fork : Bool) : (l.addArrow fork).room ≤ l.room + 4 := by
  cases fork with
  | true =>
    show 32 * l.states + (l.extra + 4) ≤ 32 * l.states + l.extra + 4
    omega
  | false => exact Nat.le_add_right _ _

end Layout

/-! ## Shared states -/

namespace SharedLayout

/-- A step adds at most `n` to the room of a layout, and what it gives is as `P` says. -/
def Takes {β : Type} (m : StateM SharedLayout β) (n : Nat) (P : β → Prop) : Prop :=
  ∀ s, P (m.run s).1 ∧ (m.run s).2.layout.room ≤ s.layout.room + n

namespace Takes

variable {β γ : Type} {m : StateM SharedLayout β} {n k : Nat} {P : β → Prop} {Q : γ → Prop}

theorem pure {x : β} (h : P x) : Takes (Pure.pure x) n P := fun _ => ⟨h, Nat.le_add_right _ _⟩

theorem mono (h : Takes m n P) (hle : n ≤ k) : Takes m k P := fun s =>
  ⟨(h s).1, (h s).2.trans (Nat.add_le_add_left hle _)⟩

theorem bind {f : β → StateM SharedLayout γ} (hm : Takes m n P) (hf : ∀ x, P x → Takes (f x) k Q) :
    Takes (m >>= f) (n + k) Q := by
  intro s
  obtain ⟨hx, hroom⟩ := hm s
  obtain ⟨hy, hroom'⟩ := hf _ hx (m.run s).2
  rw [StateT.run_bind]
  refine ⟨hy, hroom'.trans ?_⟩
  omega

/-- Steps fit into a total that grows with each of them by the room it takes. -/
theorem mapM {f : β → StateM SharedLayout γ} {c : β → Nat} (total : List β → Nat)
    (htotal : ∀ x xs, c x + total xs ≤ total (x :: xs)) {xs : List β}
    (h : ∀ x ∈ xs, Takes (f x) (c x) fun _ => True) :
    Takes (xs.mapM f) (total xs) fun ys => ys.length = xs.length := by
  induction xs with
  | nil => exact pure rfl
  | cons x xs ih =>
    rw [List.mapM_cons]
    refine Takes.mono ((h x List.mem_cons_self).bind fun y _ => ?_) (htotal x xs)
    refine (ih fun x hx => h x (List.mem_cons_of_mem _ hx)).bind (k := 0) fun ys hys => pure ?_
    rw [List.length_cons, List.length_cons, hys]

theorem foldlM {f : γ → β → StateM SharedLayout γ} (h : ∀ y x, Takes (f y x) n fun _ => True)
    (xs : List β) (y : γ) : Takes (xs.foldlM f y) (n * xs.length) fun _ => True := by
  induction xs generalizing y with
  | nil => exact pure trivial
  | cons x xs ih =>
    rw [List.foldlM_cons, List.length_cons, Nat.mul_succ, Nat.add_comm]
    exact (h y x).bind fun y' _ => ih y'

end Takes

theorem takes_state (count : Nat) (key : List Nat) (arrows : Nat) :
    Takes (state count key arrows) (32 + 8 * arrows) fun _ => True := by
  intro s
  refine ⟨trivial, ?_⟩
  simp only [state, StateT.run_bind, StateT.run_get, pure_bind]
  split
  · exact Nat.le_add_right _ _
  · exact Nat.le_of_eq (Layout.room_addRanges _ _)

theorem length_le_flatten {γ : Type} {groups : List (List γ)} (h : ∀ group ∈ groups, group ≠ []) :
    groups.length ≤ groups.flatten.length := by
  induction groups with
  | nil => exact Nat.le_refl 0
  | cons group rest ih =>
    have hgroup := List.length_pos_iff.mpr (h group List.mem_cons_self)
    have hrest := ih fun g hg => h g (List.mem_cons_of_mem _ hg)
    rw [List.flatten_cons, List.length_append, List.length_cons]
    omega

/-- Each byte of a row takes at most a state and an arrow. -/
theorem takes_readRows (target fuel : Nat) {rows : List ByteRow} (hrows : rows ≠ []) :
    Takes (readRows target fuel rows) (40 * fuel * rows.length) fun _ => True := by
  induction fuel generalizing rows with
  | zero =>
    rw [readRows]
    exact .pure trivial
  | succ fuel ih =>
    have hgroup : ∀ group ∈ rows.splitBy (·.head? == ·.head?), group ≠ [] := fun group hmem =>
      List.ne_nil_of_mem_splitBy hmem
    have hcount := length_le_flatten hgroup
    rw [List.flatten_splitBy] at hcount
    have hpos := List.length_pos_iff.mpr hrows
    rw [readRows]
    have htotal : ∀ (group : List ByteRow) (groups : List (List ByteRow)),
        40 * fuel * group.length + 40 * fuel * groups.flatten.length
          ≤ 40 * fuel * (group :: groups).flatten.length := by
      intro group groups
      rw [List.flatten_cons, List.length_append, Nat.mul_add]
    refine Takes.mono (Takes.bind (k := 32 + 8 * rows.length) (Takes.mapM
      (fun groups => 40 * fuel * groups.flatten.length) htotal fun group hmem => ?_)
      fun arrows harrows => ?_) ?_
    · dsimp only
      split
      · exact .pure trivial
      · next hrests =>
        refine Takes.mono (Takes.bind (k := 0) (ih hrests) fun next _ => .pure trivial) ?_
        have hrest := List.length_filter_le (· ≠ []) (group.map List.tail)
        rw [List.length_map] at hrest
        exact Nat.mul_le_mul_left _ hrest
    · exact (takes_state 10000 arrows.flatten arrows.length).mono (by omega)
    · rw [List.flatten_splitBy, Nat.mul_succ, Nat.add_mul]
      omega

theorem takes_readBack (target : Nat) (row : ByteRow) :
    Takes (readBack target row) (32 * row.length) fun _ => True := by
  have hstate : ∀ (id : Nat) (r : ByteRange),
      Takes (state 1000 [id, r.first, r.last] 0) 32 fun _ => True := by
    intro id r
    exact takes_state 1000 [id, r.first, r.last] 0
  rw [readBack]
  exact Takes.foldlM hstate row target

end SharedLayout

/-! ## Plans -/

namespace Plan

/-- A plan adds at most `n` to the room of a layout. -/
def Takes (p : Plan) (n : Nat) : Prop :=
  ∀ d l, (lay d p l).layout.room ≤ l.room + n

theorem addSet_room_le (d : Direction) (l : Layout) {set : CharSet} (hascii : set.isAscii = false)
    (hrows : set.byteRows ≠ []) (hlong : ∀ row ∈ set.byteRows, row.length ≤ 4) :
    (l.addSet d set).room ≤ l.room + (64 + 160 * set.byteRows.length) := by
  unfold Layout.addSet
  rw [if_neg (Bool.eq_false_iff.mp hascii)]
  cases d with
  | forward =>
    obtain ⟨-, hroom⟩ := SharedLayout.takes_readRows l.states 4 hrows ⟨l.addStates 1, ∅⟩
    simp only [Layout.room_addStates] at hroom
    exact hroom.trans (by omega)
  | backward =>
    have hback : SharedLayout.Takes (set.byteRows.mapM (SharedLayout.readBack (l.states + 1)))
        (128 * set.byteRows.length) fun ys => ys.length = set.byteRows.length := by
      refine .mapM (c := fun _ => 128) (128 * ·.length) (fun row rows => ?_) fun row hrow => ?_
      · rw [List.length_cons, Nat.mul_succ, Nat.add_comm]
      · have hlength := hlong row hrow
        exact (SharedLayout.takes_readBack _ row).mono (by omega)
    obtain ⟨-, hroom⟩ := hback ⟨(l.addFork set.byteRows.length).addStates 1, ∅⟩
    simp only [Layout.room_addStates, Layout.room_addFork] at hroom
    exact hroom.trans (by omega)

theorem takes_text (cs : List Char) : (text cs).Takes (32 * (bytes .forward cs).length) := by
  intro d l
  have hbytes : (bytes d cs).length = (bytes .forward cs).length := by
    cases d with
    | forward => rfl
    | backward => exact List.length_reverse
  rw [lay, Layout.room_addStates, hbytes]

theorem takes_assertion (a : Assertion) : (assertion a).Takes 32 := fun _ l => by
  rw [lay, Layout.room_addStates]

theorem close_room_le (x : Laid) : x.close.layout.room ≤ x.layout.room + 36 := by
  have harrow := x.layout.room_addArrow_le x.fork
  rw [Laid.close, Layout.room_addStates]
  omega

theorem follow_room_le {x : Laid} {f : Layout → Laid} {n : Nat}
    (h : (f x.layout).layout.room ≤ x.layout.room + n) :
    (x.follow f).layout.room ≤ x.layout.room + (n + 4) := by
  unfold Laid.follow
  split
  · exact Nat.le_add_right _ _
  · have harrow := (f x.layout).layout.room_addArrow_le x.fork
    dsimp only
    omega

theorem Takes.captured {p : Plan} {n : Nat} (h : p.Takes n) : (captured p).Takes (n + 68) := by
  intro d l
  cases d with
  | forward =>
    have hp := h .forward (l.addStates 1)
    have hclose := close_room_le (lay .forward p (l.addStates 1))
    rw [Layout.room_addStates] at hp
    rw [lay]
    omega
  | backward =>
    rw [lay]
    exact (h .backward l).trans (by omega)

/-- A plan once or more often. -/
theorem Takes.repeated {p : Plan} {n : Nat} (h : p.Takes n) : (repeated p 1 none).Takes (n + 44) := by
  intro d l
  have hfollow := follow_room_le (x := ⟨l, false⟩) (f := fun l => lay d p l) (h d l)
  have hcopies : (Laid.copies (fun l => lay d p l) 1 ⟨l, false⟩).layout.room ≤ l.room + (n + 4) := by
    unfold Laid.copies
    split
    · exact Nat.le_add_right _ _
    · exact hfollow
  have harrow := (Laid.copies (fun l => lay d p l) 1 ⟨l, false⟩).layout.room_addArrow_le
    (Laid.copies (fun l => lay d p l) 1 ⟨l, false⟩).fork
  rw [lay]
  show (Laid.loop (Laid.copies (fun l => lay d p l) 1 ⟨l, false⟩)).layout.room ≤ _
  rw [Laid.loop, Layout.room_addFork]
  omega

theorem layRow_room_le {ps : List Plan} {n : Nat} (h : ∀ p ∈ ps, p.Takes n) (d : Direction) (x : Laid) :
    (layRow d ps x).layout.room ≤ x.layout.room + ps.length * (n + 4) := by
  induction ps generalizing x with
  | nil => exact Nat.le_add_right _ _
  | cons p ps ih =>
    have hp := h p List.mem_cons_self
    have ih := ih fun q hq => h q (List.mem_cons_of_mem _ hq)
    rw [List.length_cons, Nat.succ_mul]
    cases d with
    | forward =>
      have hfollow := follow_room_le (f := fun l => lay .forward p l) (hp .forward x.layout)
      have hrest := ih (x.follow fun l => lay .forward p l)
      rw [layRow]
      omega
    | backward =>
      have hrest := ih x
      have hfollow := follow_room_le (f := fun l => lay .backward p l)
        (hp .backward (layRow .backward ps x).layout)
      rw [layRow]
      omega

/-- A row of plans fits if its parts together do not take too much. -/
theorem fits_row {ps : List Plan} {n : Nat} (h : ∀ p ∈ ps, p.Takes n)
    (hroom : ps.length * (n + 4) + 248 ≤ Layout.maxRoom) : (row ps).fits = true := by
  have hrow : (row ps).Takes (ps.length * (n + 4) + 32) := by
    intro d l
    rw [lay]
    split
    · rw [Layout.room_addStates]
      omega
    · have hparts : (layRow d ps ⟨l, false⟩).layout.room ≤ l.room + ps.length * (n + 4) :=
        layRow_room_le h d ⟨l, false⟩
      omega
  have hlayout : ∀ d, ((row ps).layout d).isFull = false := by
    intro d
    have hclosed : ∀ start : Layout, start.room ≤ 112 →
        (lay d (.captured (row ps)) start).close.layout.room ≤ Layout.maxRoom := by
      intro start hstart
      have hlaid := hrow.captured d start
      have hclose := close_room_le (lay d (.captured (row ps)) start)
      omega
    refine decide_eq_false (Nat.not_lt.mpr ?_)
    unfold layout
    dsimp only
    split
    · exact hclosed _ (by decide)
    · exact hclosed _ (by decide)
  rw [fits, hlayout, hlayout]
  rfl

theorem Takes.mono {p : Plan} {n k : Nat} (h : p.Takes n) (hle : n ≤ k) : p.Takes k := fun d l =>
  (h d l).trans (Nat.add_le_add_left hle _)

end Plan

namespace SegmentPart

/-- A text that is not empty and takes no more room than a variable, or a variable. -/
def isShort : SegmentPart → Bool
  | literal text => text ≠ "" && (Plan.bytes .forward text.toList).length ≤ 50
  | var _ => true

theorem plan_literal {s : String} (h : s ≠ "") : (literal s).plan = .text s.toList := by
  have hcs : s.toList ≠ [] := fun hnil => h (String.toList_eq_nil_iff.mp hnil)
  rw [plan, Plan.ofText, if_neg hcs]

theorem takes_plan {p : SegmentPart} (h : p.isShort = true) : p.plan.Takes 1776 := by
  cases p with
  | literal s =>
    obtain ⟨hne, hlength⟩ := Bool.and_eq_true_iff.mp h
    rw [plan_literal (of_decide_eq_true hne)]
    exact (Plan.takes_text s.toList).mono (by have := of_decide_eq_true hlength; omega)
  | var v =>
    have hset : (Plan.chars (.complement (.single '\n'))).Takes 1664 := fun d l =>
      Plan.addSet_room_le d l (by decide +kernel) (by decide +kernel) (by decide +kernel)
    exact hset.repeated.captured

end SegmentPart

/-- The pattern of a variable behind a short part is not too large. -/
theorem SegmentPattern.fits_pair {p : SegmentPart} (h : p.isShort = true) (v : Variable) :
    SegmentPattern.fits ⟨[p, .var v]⟩ = true := by
  have hplan : SegmentPattern.plan ⟨[p, .var v]⟩
      = .row [.assertion .textStart, p.plan, (SegmentPart.var v).plan, .assertion .textEnd] := by
    cases p with
    | var w => rfl
    | literal s =>
      have hs := SegmentPart.plan_literal (of_decide_eq_true (Bool.and_eq_true_iff.mp h).1)
      simp only [plan, List.map_cons, hs]
      rfl
  have hfits : SegmentPattern.fits ⟨[p, .var v]⟩ = (SegmentPattern.plan ⟨[p, .var v]⟩).fits := by
    cases p <;> rfl
  rw [hfits, hplan]
  refine Plan.fits_row (n := 1776) (fun q hq => ?_) (show 4 * (1776 + 4) + 248 ≤ Layout.maxRoom by decide)
  simp only [List.mem_cons, List.not_mem_nil, or_false] at hq
  rcases hq with rfl | rfl | rfl | rfl
  · exact (Plan.takes_assertion _).mono (by omega)
  · exact SegmentPart.takes_plan h
  · exact SegmentPart.takes_plan (p := .var v) rfl
  · exact (Plan.takes_assertion _).mono (by omega)

end UriRouting
