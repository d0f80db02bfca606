/-
  Curried.Proofs.Scopes — what a write to a scope is seen by.

  A frame answers for a name by the nearest frame of its chain that binds it (`Store.Nearest`), whatever the name is
  bound to. Defining a name in a frame changes the answers of the frames for which that one is then the nearest, and
  no others; assigning does the same where the name is bound already, or fails and changes nothing. A frame made
  inside another answers as that one does.

  The chain is followed with a bound on its length. Parents are older than their frames in every store that has been
  built (`Store.Built.ordered`), so the bound is never met (`Store.resolveWithin_eq`).
-/

import Curried.Proofs.Coupling.Evaluator
import Curried.Proofs.Frames

namespace Curried

namespace Frame

theorem find?_bindIn (name : String) (v : Value) (bs : List (String × Value)) (n : String) :
    ((bindIn name v bs).find? (·.1 == n)).map (·.2) =
      if n = name then some v else (bs.find? (·.1 == n)).map (·.2) := by
  induction bs with
  | nil =>
    by_cases hn : n = name
    · simp [bindIn, hn]
    · have hne : ¬ name = n := fun e => hn e.symm
      simp [bindIn, hn, hne]
  | cons b rest ih =>
    obtain ⟨k, w⟩ := b
    by_cases hk : k = name
    · subst hk
      by_cases hn : n = k
      · simp [bindIn, hn]
      · have hne : ¬ k = n := fun e => hn e.symm
        simp [bindIn, hn, hne]
    · by_cases hkn : k = n
      · subst hkn
        simp [bindIn, hk]
      · simpa [bindIn, hk, hkn] using ih

theorem find?_bind (f : Frame) (name : String) (v : Value) (n : String) :
    (f.bind name v).find? n = if n = name then some v else f.find? n :=
  find?_bindIn name v f.bindings n

theorem find?_eq_none {f : Frame} {name : String} : f.find? name = none ↔ name ∉ f.names := by
  rw [← isSome_find?, Option.not_isSome_iff_eq_none]

end Frame

namespace Store

inductive Built : Store → Prop
  | empty : Built {}
  | root {s : Store} : Built s → Built (s.push none)
  | child {s : Store} {f : FrameId} : Built s → f < s.size → Built (s.child f)
  | define {s : Store} {f : FrameId} {n : String} {v : Value} : Built s → f < s.size → Built (s.define f n v)
  | assign {s s' : Store} {f : FrameId} {n : String} {v : Value} : Built s → f < s.size →
      s.assign f n v = .ok s' → Built s'

inductive OnChain (s : Store) : FrameId → FrameId → Prop
  | self {f : FrameId} : OnChain s f f
  | outer {f p k : FrameId} : (s.frame f).parent = some p → OnChain s p k → OnChain s f k

inductive Nearest (s : Store) (n : String) : FrameId → FrameId → Prop
  | self {f : FrameId} : n ∈ (s.frame f).names → Nearest s n f f
  | outer {f p k : FrameId} : n ∉ (s.frame f).names → (s.frame f).parent = some p → Nearest s n p k → Nearest s n f k

def Ordered (s : Store) : Prop := ∀ f p, (s.frame f).parent = some p → p < f

variable {s s' : Store} {f g k p : FrameId} {n m : String} {v u : Value}

/-! ## Stores that have been built -/

theorem parent_define (s : Store) (f : FrameId) (n : String) (v : Value) (g : FrameId) :
    ((s.define f n v).frame g).parent = (s.frame g).parent := by
  rw [frame_define]
  split
  · rfl
  · rfl

theorem Ordered.define (h : s.Ordered) (f : FrameId) (n : String) (v : Value) : (s.define f n v).Ordered := by
  intro g p hp
  rw [parent_define] at hp
  exact h g p hp

theorem Ordered.push (h : s.Ordered) {parent : Option FrameId} (hparent : ∀ p, parent = some p → p < s.size) :
    (s.push parent).Ordered := by
  intro g p hp
  rw [frame_push] at hp
  by_cases hg : g = s.size
  · rw [if_pos hg] at hp
    exact hg ▸ hparent p hp
  · rw [if_neg hg] at hp
    exact h g p hp

/-- Assigning is defining in the frame that the name resolves to. -/
theorem assign_eq_ok (h : s.assign f n v = .ok s') : ∃ k u, s.resolve? f n = some (k, u) ∧ s' = s.define k n v := by
  unfold assign at h
  cases hr : s.resolve? f n with
  | none =>
    rw [hr] at h
    cases h
  | some r =>
    rw [hr] at h
    exact ⟨r.1, r.2, rfl, (Except.ok.inj h).symm⟩

theorem Built.ordered (h : s.Built) : s.Ordered := by
  induction h with
  | empty =>
    intro f p hp
    rw [frame_of_le (Nat.zero_le f)] at hp
    cases hp
  | root _ ih => exact ih.push fun _ hp => by cases hp
  | child _ hf ih =>
    refine ih.push fun p hp => ?_
    cases hp
    exact hf
  | define _ _ ih => exact ih.define _ _ _
  | assign _ _ ha ih =>
    obtain ⟨k, u, -, rfl⟩ := assign_eq_ok ha
    exact ih.define _ _ _

/-! ## The nearest frame -/

theorem Nearest.onChain (h : s.Nearest n f k) : s.OnChain f k ∧ n ∈ (s.frame k).names := by
  induction h with
  | self hn => exact ⟨.self, hn⟩
  | outer _ hp _ ih => exact ⟨.outer hp ih.1, ih.2⟩

theorem exists_nearest (h : s.OnChain f k) (hn : n ∈ (s.frame k).names) : ∃ k', s.Nearest n f k' := by
  induction h with
  | @self f => exact ⟨f, .self hn⟩
  | @outer f p k hp _ ih =>
    by_cases hf : n ∈ (s.frame f).names
    · exact ⟨f, .self hf⟩
    · obtain ⟨k', hk'⟩ := ih hn
      exact ⟨k', .outer hf hp hk'⟩

theorem Nearest.unique {k' : FrameId} (h : s.Nearest n f k) (h' : s.Nearest n f k') : k = k' := by
  induction h with
  | self hn =>
    cases h' with
    | self _ => rfl
    | outer hn' => exact (hn' hn).elim
  | outer hn hp _ ih =>
    cases h' with
    | self hn' => exact (hn hn').elim
    | outer _ hp' h' =>
      cases hp.symm.trans hp'
      exact ih h'

/-- Which frame is nearest is up to the frames' names and parents. -/
theorem Nearest.congr (hparent : ∀ g, (s'.frame g).parent = (s.frame g).parent)
    (hnames : ∀ g, n ∈ (s'.frame g).names ↔ n ∈ (s.frame g).names) (h : s.Nearest n f k) : s'.Nearest n f k := by
  induction h with
  | self hn => exact .self ((hnames _).mpr hn)
  | outer hn hp _ ih => exact .outer (fun h => hn ((hnames _).mp h)) ((hparent _).trans hp) ih

theorem nearest_of_resolveWithin {fuel : Nat} (h : s.resolveWithin n fuel f = some (k, u)) : s.Nearest n f k := by
  induction fuel generalizing f with
  | zero => cases h
  | succ fuel ih =>
    simp only [resolveWithin] at h
    cases hv : (s.frame f).find? n with
    | some w =>
      rw [hv] at h
      cases h
      exact .self (Frame.mem_names_of_find? hv)
    | none =>
      rw [hv] at h
      cases hp : (s.frame f).parent with
      | none => rw [hp] at h; cases h
      | some p =>
        rw [hp] at h
        exact .outer (Frame.find?_eq_none.mp hv) hp (ih h)

theorem resolveWithin_of_nearest (hs : s.Ordered) (h : s.Nearest n f k) (hv : (s.frame k).find? n = some v) {fuel : Nat}
    (hfuel : f < fuel) : s.resolveWithin n fuel f = some (k, v) := by
  induction fuel generalizing f with
  | zero => exact (Nat.not_lt_zero _ hfuel).elim
  | succ fuel ih =>
    rw [resolveWithin]
    cases h with
    | self _ => rw [hv]
    | outer hn hp h =>
      rw [Frame.find?_eq_none.mpr hn, hp]
      exact ih h (Nat.lt_of_lt_of_le (hs _ _ hp) (Nat.le_of_lt_succ hfuel))

theorem resolve?_eq_some_iff (hs : s.Ordered) :
    s.resolve? f n = some (k, v) ↔ s.Nearest n f k ∧ (s.frame k).find? n = some v :=
  ⟨fun h => ⟨nearest_of_resolveWithin h, find?_of_resolve? h⟩,
    fun ⟨h, hv⟩ => resolveWithin_of_nearest hs h hv (Nat.lt_succ_self f)⟩

theorem lookup?_of_nearest (hs : s.Ordered) (h : s.Nearest n f k) (hv : (s.frame k).find? n = some v) :
    s.lookup? f n = some v := by
  rw [lookup?, (resolve?_eq_some_iff hs).mpr ⟨h, hv⟩]
  rfl

theorem resolve?_eq_none_iff (hs : s.Ordered) :
    s.resolve? f n = none ↔ ∀ k, s.OnChain f k → n ∉ (s.frame k).names := by
  constructor
  · intro h k hk hn
    obtain ⟨k', hk'⟩ := exists_nearest hk hn
    obtain ⟨v, hv⟩ := Option.isSome_iff_exists.mp (Frame.isSome_find?.mpr hk'.onChain.2)
    rw [(resolve?_eq_some_iff hs).mpr ⟨hk', hv⟩] at h
    cases h
  · intro h
    cases hr : s.resolve? f n with
    | none => rfl
    | some r =>
      have hnear := nearest_of_resolveWithin hr
      exact (h r.1 hnear.onChain.1 hnear.onChain.2).elim

/-- No chain is longer than the bound on it. -/
theorem resolveWithin_eq (hs : s.Ordered) {fuel : Nat} (hfuel : f < fuel) :
    s.resolveWithin n fuel f = s.resolve? f n := by
  cases hr : s.resolve? f n with
  | some r =>
    obtain ⟨hnear, hv⟩ := (resolve?_eq_some_iff hs).mp hr
    exact resolveWithin_of_nearest hs hnear hv hfuel
  | none =>
    cases hw : s.resolveWithin n fuel f with
    | none => rfl
    | some r =>
      have hnear := nearest_of_resolveWithin hw
      exact ((resolve?_eq_none_iff hs).mp hr r.1 hnear.onChain.1 hnear.onChain.2).elim

/-! ## Writes -/

/-- A name is answered with `v` by the frames that see it so, and every other answer is what it was. -/
def Rebound (s s' : Store) (n : String) (v : Value) (sees : FrameId → Prop) : Prop :=
  ∀ g m, (m = n ∧ sees g → s'.lookup? g m = some v) ∧ (¬ (m = n ∧ sees g) → s'.lookup? g m = s.lookup? g m)

theorem find?_define_self (hf : f < s.size) : ((s.define f n v).frame f).find? n = some v := by
  rw [frame_define, if_pos ⟨rfl, hf⟩, Frame.find?_bind, if_pos rfl]

/-- A frame that does not come to the new binding answers as before. -/
theorem resolveWithin_define (hf : f < s.size) (h : ¬ (m = n ∧ (s.define f n v).Nearest n g f)) (fuel : Nat) :
    (s.define f n v).resolveWithin m fuel g = s.resolveWithin m fuel g := by
  induction fuel generalizing g with
  | zero => rfl
  | succ fuel ih =>
    have hfind : ((s.define f n v).frame g).find? m = (s.frame g).find? m := by
      rw [frame_define]
      by_cases hg : g = f ∧ f < s.size
      · rw [if_pos hg, Frame.find?_bind, if_neg]
        rintro rfl
        obtain ⟨rfl, -⟩ := hg
        exact h ⟨rfl, .self (Frame.mem_names_of_find? (find?_define_self hf))⟩
      · rw [if_neg hg]
    rw [resolveWithin, resolveWithin, hfind, parent_define]
    cases hv : (s.frame g).find? m with
    | some _ => rfl
    | none =>
      cases hp : (s.frame g).parent with
      | none => rfl
      | some p =>
        apply ih
        intro hboth
        obtain ⟨rfl, hnear⟩ := hboth
        have hunbound := Frame.find?_eq_none.mp (hfind.trans hv)
        exact h ⟨rfl, .outer hunbound ((parent_define ..).trans hp) hnear⟩

theorem rebound_define (hs : s.Ordered) (hf : f < s.size) (n : String) (v : Value) :
    s.Rebound (s.define f n v) n v fun g => (s.define f n v).Nearest n g f := by
  refine fun g m => ⟨?_, fun h => ?_⟩
  · rintro ⟨rfl, hnear⟩
    exact lookup?_of_nearest (hs.define _ _ _) hnear (find?_define_self hf)
  · rw [lookup?, resolve?, resolveWithin_define hf h]
    rfl

/-- Binding a name where it is bound leaves the frames' names. -/
theorem names_define (hn : n ∈ (s.frame k).names) (v : Value) (g : FrameId) :
    ((s.define k n v).frame g).names = (s.frame g).names := by
  rw [frame_define]
  by_cases hg : g = k ∧ k < s.size
  · obtain ⟨rfl, hlt⟩ := hg
    rw [if_pos ⟨rfl, hlt⟩, Frame.names_bind, if_pos hn]
  · rw [if_neg hg]

/-- Only frames that there are have names. -/
theorem lt_size_of_mem_names (hn : n ∈ (s.frame k).names) : k < s.size := by
  by_contra hk
  rw [frame_of_le (Nat.le_of_not_lt hk)] at hn
  cases hn

theorem rebound_assign (hs : s.Ordered) (h : s.assign f n v = .ok s') :
    ∃ k, s.Nearest n f k ∧ (s.Rebound s' n v fun g => s.Nearest n g k) ∧
      ∀ g, (s'.frame g).names = (s.frame g).names := by
  obtain ⟨k, u, hr, rfl⟩ := assign_eq_ok h
  have hnear := nearest_of_resolveWithin hr
  have hn := hnear.onChain.2
  have hnames := names_define hn v
  -- the names are the same before and after, so the nearest frames are
  have hsame : ∀ g, (s.define k n v).Nearest n g k ↔ s.Nearest n g k := fun g =>
    ⟨.congr (fun _ => (parent_define ..).symm) fun i => by rw [hnames i],
      .congr (fun _ => parent_define ..) fun i => by rw [hnames i]⟩
  have hrebound := rebound_define hs (lt_size_of_mem_names hn) n v
  simp only [hsame] at hrebound
  exact ⟨k, hnear, hrebound, hnames⟩

theorem resolveWithin_push (hs : s.Ordered) (parent : Option FrameId) (hg : g < s.size) (fuel : Nat) :
    (s.push parent).resolveWithin m fuel g = s.resolveWithin m fuel g := by
  induction fuel generalizing g with
  | zero => rfl
  | succ fuel ih =>
    rw [resolveWithin, resolveWithin, frame_push, if_neg (Nat.ne_of_lt hg)]
    cases hv : (s.frame g).find? m with
    | some _ => rfl
    | none =>
      cases hp : (s.frame g).parent with
      | none => rfl
      | some p => exact ih (Nat.lt_trans (hs g p hp) hg)

theorem lookup?_child (hs : s.Ordered) (f : FrameId) (hg : g < s.size) (m : String) :
    (s.child f).lookup? g m = s.lookup? g m := by
  rw [lookup?, resolve?, child, resolveWithin_push hs (some f) hg]
  rfl

theorem lookup?_child_self (hs : s.Ordered) (hf : f < s.size) (m : String) :
    (s.child f).lookup? s.size m = s.lookup? f m := by
  have hresolve : (s.child f).resolve? s.size m = s.resolve? f m := by
    rw [resolve?, resolveWithin, child, frame_push, if_pos rfl, ← resolveWithin_eq hs hf]
    exact resolveWithin_push hs (some f) hf s.size
  rw [lookup?, lookup?, hresolve]

theorem assign_eq_error_iff (hs : s.Ordered) :
    (∃ fault, s.assign f n v = .error fault) ↔ ∀ k, s.OnChain f k → n ∉ (s.frame k).names := by
  rw [← resolve?_eq_none_iff hs, assign]
  cases s.resolve? f n with
  | none => exact ⟨fun _ => rfl, fun _ => ⟨_, rfl⟩⟩
  | some r =>
    constructor
    · rintro ⟨_, h⟩
      cases h
    · intro h
      cases h

end Store

/-- What is bound is what the nearest frame of a chain binds. Defining is seen by the frames whose nearest frame for
the name is then the one defined in. Assigning fails, with the machine unchanged, where no frame of the chain binds the
name; otherwise it is seen by the frames that have the same nearest frame for it. A new frame answers as the one it is
made in. A name bound to nil is bound. -/
theorem writes_seen_by_nearest {s : Store} (hs : s.Built) {f : FrameId} (hf : f < s.size) (n : String) (v : Value) :
    (s.Rebound (s.define f n v) n v fun g => (s.define f n v).Nearest n g f) ∧
      ((∃ fault, s.assign f n v = .error fault) ↔ ∀ k, s.OnChain f k → n ∉ (s.frame k).names) ∧
      (∀ machine : Machine, machine.store = s → (∀ k, s.OnChain f k → n ∉ (s.frame k).names) →
        Eval.assign f n v machine = .error (.fault (.of (.undefinedVariable n))) machine) ∧
      (∀ s', s.assign f n v = .ok s' → ∃ k, s.Nearest n f k ∧ (s.Rebound s' n v fun g => s.Nearest n g k) ∧
        ∀ g, (s'.frame g).names = (s.frame g).names) ∧
      (∀ m, (s.child f).lookup? s.size m = s.lookup? f m) ∧
      (∀ g < s.size, ∀ m, (s.child f).lookup? g m = s.lookup? g m) ∧
      ∀ g k m, s.Nearest m g k → (s.frame k).find? m = some .nil →
        s.lookup? g m = some .nil ∧ s.isDefined g m = true ∧ s.get g m = .ok .nil ∧ ∃ s', s.assign g m v = .ok s' := by
  have ho := hs.ordered
  refine ⟨Store.rebound_define ho hf n v, Store.assign_eq_error_iff ho, ?_, fun s' => Store.rebound_assign ho,
    Store.lookup?_child_self ho hf, fun g hg => Store.lookup?_child ho f hg, fun g k m hnear hnil => ?_⟩
  · rintro machine rfl hunbound
    rw [Coupling.assign_eq, (Store.resolve?_eq_none_iff ho).mpr hunbound]
  · have hlookup := Store.lookup?_of_nearest ho hnear hnil
    refine ⟨hlookup, ?_, ?_, s.define k m v, ?_⟩
    · rw [Store.isDefined, hlookup]
      rfl
    · rw [Store.get, hlookup]
    · rw [Store.assign, (Store.resolve?_eq_some_iff ho).mpr ⟨hnear, hnil⟩]

/-- Two frames inside one that binds a name to nil, and one of them hides it: assigning from the other is seen by the
outer frame and not by the one that hides the name. -/
theorem writes_seen_by_nearest_siblings :
    let s : Store := (((({} : Store).push none).define 0 "x" .nil).child 0).child 0 |>.define 1 "x" (.bool true)
    s.Built ∧ 2 < s.size ∧ ∃ s', s.assign 2 "x" (.string "a") = .ok s' ∧
      s'.lookup? 0 "x" = some (.string "a") ∧ s'.lookup? 1 "x" = some (.bool true) := by
  intro s
  have hs : s.Built :=
    .define (.child (.child (.define (.root .empty) (by decide)) (by decide)) (by decide)) (by decide)
  have hf : 2 < s.size := by decide
  have houter : s.Nearest "x" 0 0 := .self (by decide)
  have hsibling : s.Nearest "x" 2 0 := .outer (by decide) rfl houter
  have hhidden : s.Nearest "x" 1 1 := .self (by decide)
  obtain ⟨-, -, -, hassign, -, -, hnil⟩ := writes_seen_by_nearest hs hf "x" (.string "a")
  obtain ⟨-, -, -, s', hs'⟩ := hnil 2 0 "x" hsibling rfl
  obtain ⟨k, hk, hrebound, -⟩ := hassign s' hs'
  obtain rfl := hsibling.unique hk
  refine ⟨hs, hf, s', hs', (hrebound 0 "x").1 ⟨rfl, houter⟩, (hrebound 1 "x").2 fun h => ?_⟩
  cases hhidden.unique h.2

end Curried
