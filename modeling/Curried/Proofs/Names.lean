/-
  Curried.Proofs.Names — which names a frame has.

  A declaration binds its name in the frame it runs in, an assignment rebinds a name that is bound, and the body of a
  function runs in a frame of its own. So applying a function adds no name to any frame there was, and an expression
  adds names only to the frame it runs in: those declared in it outside every function body (`names_kept`). No name is
  ever removed.
-/

import Curried.Proofs.Frames
import Curried.Proofs.Invariant

namespace Curried

/-- A later state of a store: its frames have the names they had, in their order, and after them only names that `may`
allows. -/
structure Store.Grown (may : FrameId → String → Prop) (s s' : Store) : Prop where
  size : s.size ≤ s'.size
  names : ∀ id < s.size, ∃ added, (s'.frame id).names = (s.frame id).names ++ added ∧ ∀ name ∈ added, may id name

namespace Store.Grown

variable {may : FrameId → String → Prop} {s s' : Store}

theorem refl (s : Store) : s.Grown may s :=
  ⟨Nat.le_refl _, fun _ _ => ⟨[], (List.append_nil _).symm, nofun⟩⟩

theorem push (h : s.Grown may s') (parent : Option FrameId) : s.Grown may (s'.push parent) := by
  refine ⟨by rw [size_push]; exact Nat.le_succ_of_le h.size, fun id hid => ?_⟩
  rw [frame_push, if_neg (Nat.ne_of_lt (Nat.lt_of_lt_of_le hid h.size))]
  exact h.names id hid

/-- A binding in a new frame, or one that is allowed. -/
theorem define (h : s.Grown may s') {id : FrameId} {name : String} (v : Value) (hid : s.size ≤ id ∨ may id name) :
    s.Grown may (s'.define id name v) := by
  refine ⟨by rw [size_define]; exact h.size, fun i hi => ?_⟩
  obtain ⟨added, hnames, hadded⟩ := h.names i hi
  rw [frame_define]
  split
  · rename_i hown
    obtain ⟨rfl, -⟩ := hown
    rw [Frame.names_bind]
    split
    · exact ⟨added, hnames, hadded⟩
    · refine ⟨added ++ [name], by rw [hnames, List.append_assoc], fun n hn => ?_⟩
      rcases List.mem_append.mp hn with hn | hn
      · exact hadded n hn
      · cases List.mem_singleton.mp hn
        exact hid.resolve_left (Nat.not_le_of_lt hi)
  · exact ⟨added, hnames, hadded⟩

/-- A name that is bound already. -/
theorem rebind (h : s.Grown may s') {frame owner : FrameId} {name : String} {u : Value}
    (hr : s'.resolve? frame name = some (owner, u)) (v : Value) : s.Grown may (s'.define owner name v) := by
  refine ⟨by rw [size_define]; exact h.size, fun i hi => ?_⟩
  rw [frame_define]
  split
  · rename_i hown
    obtain ⟨rfl, -⟩ := hown
    rw [Frame.names_bind, if_pos (Frame.mem_names_of_find? (find?_of_resolve? hr))]
    exact h.names i hi
  · exact h.names i hi

theorem entered {m : Machine} (h : s.Grown may m.store) (frame : FrameId) (params : List String) (v : Value) :
    s.Grown may (m.entered frame params v).store := by
  cases params with
  | nil => exact h.push (some frame)
  | cons p _ => exact (h.push (some frame)).define v (Or.inl h.size)

end Store.Grown

namespace Names

/-- From a store `s` on: an expression runs in a new frame, or declares only names that its frame may be given. -/
def invariant (s : Store) (may : FrameId → String → Prop) : Invariant where
  value _ _ := True
  program _ e frame := s.size ≤ frame ∨ ∀ d, e.Outer d → ∀ name, d.declared? = some name → may frame name
  machine m := s.Grown may m.store
  fault _ := True

variable {s : Store} {may : FrameId → String → Prop}

theorem each_any (n : Nat) (v : Value) : v.Each ((invariant s may).value n) := fun _ _ _ => trivial

theorem holds_iff {m : Machine} : (invariant s may).Holds m ↔ s.Grown may m.store :=
  ⟨fun hm => hm.machine, fun hm => ⟨fun _ _ b _ => each_any _ b.2, hm⟩⟩

theorem invariant_laws (h : Host) : (invariant s may).Laws h where
  values _ _ := trivial
  programs _ he := he
  parts he _ hx := he.imp_right fun hd d hxd => hd d (.part hx hxd)
  make _ _ := trivial
  enter _ _ hm := Or.inl hm.size
  curry _ _ := trivial
  collect _ _ := trivial
  fresh hm := hm
  declare he hname hm := hm.define _ (he.imp_right fun hd => hd _ .self _ hname)
  rebind hr hm := hm.rebind hr _
  entered _ hm := hm.entered _ _ _
  write hm := hm
  input hm := hm
  atDepth hm := hm
  log _ hm := hm
  report _ _ hm := hm
  overflow _ hm := hm
  ordinary _ _ := trivial
  missing _ _ _ := trivial
  unknown _ _ := trivial
  refused _ := trivial
  blame _ _ := trivial
  extension _ hm := Invariant.reply_ended hm (fun v _ => each_any _ v) (fun _ _ _ _ => trivial) fun _ _ => trivial

/-- Applying a function gives no frame a name. -/
theorem apply_grown (h : Host) (k : Nat) (f v : Value) (m : Machine) :
    m.store.Grown (fun _ _ => False) (Eval.left (apply h k f v m)).store :=
  (Invariant.apply_ended (invariant_laws h) k (each_any _ f) (each_any _ v) (holds_iff.mpr (.refl _))).left.machine

/-- An expression gives its frame names that are declared in it, and no other frame any. -/
theorem evaluate_grown (h : Host) (k : Nat) (e : Expr) (frame : FrameId) (m : Machine) :
    m.store.Grown (fun id name => id = frame ∧ ∃ d, e.Outer d ∧ d.declared? = some name)
      (Eval.left (evaluate h k e frame m)).store :=
  (Invariant.evaluate_ended (invariant_laws h) k (Or.inr fun d hd _ hname => ⟨rfl, d, hd, hname⟩)
    (holds_iff.mpr (.refl _))).left.machine

end Names

theorem Store.Grown.names_eq {may : FrameId → String → Prop} {s s' : Store} (h : s.Grown may s') {id : FrameId}
    (hid : id < s.size) (hmay : ∀ name, ¬ may id name) : (s'.frame id).names = (s.frame id).names := by
  obtain ⟨added, hnames, hadded⟩ := h.names id hid
  cases added with
  | nil => rw [hnames, List.append_nil]
  | cons name _ => exact absurd (hadded name List.mem_cons_self) (hmay name)

/-- However it ends, applying a function leaves every frame that there was with the names it had; and so does evaluating
an expression, but for the frame it runs in, which may get names declared in it outside every function body. -/
theorem names_kept (h : Host) (k : Nat) (m : Machine) :
    (∀ f v : Value, ∀ id < m.store.size,
      ((Eval.left (apply h k f v m)).store.frame id).names = (m.store.frame id).names) ∧
    ∀ (e : Expr) (frame : FrameId),
      (∀ id < m.store.size, id ≠ frame →
        ((Eval.left (evaluate h k e frame m)).store.frame id).names = (m.store.frame id).names) ∧
      (frame < m.store.size → ∃ added,
        ((Eval.left (evaluate h k e frame m)).store.frame frame).names = (m.store.frame frame).names ++ added ∧
          ∀ name ∈ added, ∃ d, e.Outer d ∧ d.declared? = some name) := by
  refine ⟨fun f v id hid => ?_, fun e frame => ⟨fun id hid hne => ?_, fun hframe => ?_⟩⟩
  · exact (Names.apply_grown h k f v m).names_eq hid fun _ => not_false
  · exact (Names.evaluate_grown h k e frame m).names_eq hid fun _ hmay => hne hmay.1
  · obtain ⟨added, hnames, hadded⟩ := (Names.evaluate_grown h k e frame m).names frame hframe
    exact ⟨added, hnames, fun name hname => (hadded name hname).2⟩

/-- A declaration where it runs, and the same in the body of a function that is applied. -/
theorem names_kept_declaration :
    let m : Machine := { store := ⟨#[⟨none, []⟩]⟩ }
    let e : Expr := .binding {} "x" (.boolean {} true) (.nil {}) none
    ((Eval.left (evaluate {} 9 e 0 m)).store.frame 0).names = ["x"] ∧
      (∀ name ∈ ["x"], ∃ d, e.Outer d ∧ d.declared? = some name) ∧
      ((Eval.left (apply {} 9 (.closure 0 none [] e 0) .nil m)).store.frame 1).names = ["x"] ∧
      ((Eval.left (apply {} 9 (.closure 0 none [] e 0) .nil m)).store.frame 0).names = [] := by
  intro m e
  have hdeclared : ((Eval.left (evaluate {} 9 e 0 m)).store.frame 0).names = ["x"] := rfl
  have hkept := names_kept {} 9 m
  obtain ⟨added, hnames, hadded⟩ := (hkept.2 e 0).2 Nat.zero_lt_one
  have hadd : added = ["x"] := hnames.symm.trans hdeclared
  exact ⟨hdeclared, hadd ▸ hadded, rfl, hkept.1 (.closure 0 none [] e 0) .nil 0 Nat.zero_lt_one⟩

end Curried
