/-
  Curried.Proofs.Likeness.Uses — which native functions there are.

  `Value.Uses` and `Store.Uses` say of every native function in a value or a store that `P` holds of what it computes.
  Such a value is alike to itself under any likeness that holds of those functions and of every closure.
-/

import Curried.Proofs.Likeness

namespace Curried

mutual

/-- All native functions in a value, also those in its parts, compute something that `P` holds of. -/
def Value.Uses (P : Primitive → Prop) : Value → Prop
  | .list items => Value.AllUse P items
  | .native _ _ _ code collected => P code ∧ Value.AllUse P collected
  | _ => True

def Value.AllUse (P : Primitive → Prop) : List Value → Prop
  | [] => True
  | v :: vs => v.Uses P ∧ Value.AllUse P vs

end

mutual

theorem Value.uses_any : ∀ v : Value, v.Uses fun _ => True
  | .list items => by rw [Value.Uses]; exact Value.allUse_any items
  | .native _ _ _ _ collected => by rw [Value.Uses]; exact ⟨trivial, Value.allUse_any collected⟩
  | .nil => trivial
  | .bool _ => trivial
  | .number _ => trivial
  | .string _ => trivial
  | .closure .. => trivial
  | .regex _ => trivial
  | .foreign _ => trivial

theorem Value.allUse_any : ∀ vs : List Value, Value.AllUse (fun _ => True) vs
  | [] => trivial
  | v :: vs => by rw [Value.AllUse]; exact ⟨v.uses_any, Value.allUse_any vs⟩

end

def Store.Uses (P : Primitive → Prop) (s : Store) : Prop :=
  ∀ f ∈ s.frames, ∀ b ∈ f.bindings, b.2.Uses P

/-! ## Stores -/

variable {P : Primitive → Prop} {s : Store}

theorem Store.Uses.push (hs : s.Uses P) (parent : Option FrameId) : (s.push parent).Uses P := by
  intro f hf b hb
  rcases Array.mem_push.mp hf with hf | rfl
  · exact hs f hf b hb
  · cases hb

theorem Frame.uses_bindIn {name : String} {v : Value} (hv : v.Uses P) {bs : List (String × Value)}
    (hbs : ∀ b ∈ bs, b.2.Uses P) : ∀ b ∈ Frame.bindIn name v bs, b.2.Uses P := by
  induction bs with
  | nil => simpa [Frame.bindIn] using hv
  | cons b rest ih =>
    obtain ⟨hb, hrest⟩ := List.forall_mem_cons.mp hbs
    rw [Frame.bindIn]
    split
    · exact List.forall_mem_cons.mpr ⟨hv, hrest⟩
    · exact List.forall_mem_cons.mpr ⟨hb, ih hrest⟩

theorem Store.Uses.define (hs : s.Uses P) (id : FrameId) (name : String) {v : Value} (hv : v.Uses P) :
    (s.define id name v).Uses P := by
  intro f hf
  obtain ⟨i, hi, rfl⟩ := Array.mem_iff_getElem.mp hf
  have hi' : i < s.frames.size := by simpa [Store.define] using hi
  have hold := hs s.frames[i] (Array.getElem_mem hi')
  simp only [Store.define, Array.getElem_modify]
  split
  · exact Frame.uses_bindIn hv hold
  · exact hold

/-! ## Likeness -/

namespace Likeness

variable {L : Likeness}

mutual

theorem values_self (hc : ∀ {id name params frame} body, L.closure id name params body body frame)
    (hn : ∀ {id name arity code vs}, P code → L.native id name arity code vs vs) (hf : ∀ {type}, L.foreign type) :
    ∀ v : Value, v.Uses P → L.Values v v
  | .nil, _ => .nil
  | .bool b, _ => .bool b
  | .number x, _ => .number x
  | .string s, _ => .string s
  | .list items, h => .list (allValues_self hc hn hf items (by simpa only [Value.Uses] using h))
  | .closure .., _ => .closure (hc _)
  | .native _ _ _ code collected, h => by
    simp only [Value.Uses] at h
    exact .native (hn h.1) (allValues_self hc hn hf collected h.2)
  | .regex r, _ => .regex r
  | .foreign _, _ => .foreign hf

theorem allValues_self (hc : ∀ {id name params frame} body, L.closure id name params body body frame)
    (hn : ∀ {id name arity code vs}, P code → L.native id name arity code vs vs) (hf : ∀ {type}, L.foreign type) :
    ∀ vs : List Value, Value.AllUse P vs → List.Forall₂ L.Values vs vs
  | [], _ => .nil
  | v :: vs, h => by
    simp only [Value.AllUse] at h
    exact .cons (values_self hc hn hf v h.1) (allValues_self hc hn hf vs h.2)

end

end Likeness

theorem Store.Uses.alike_self {rel : Value → Value → Prop} (hs : s.Uses P) (h : ∀ v : Value, v.Uses P → rel v v) :
    s.Alike rel s := by
  refine List.forall₂_same.mpr fun f hf => ⟨rfl, List.forall₂_same.mpr fun b hb => ⟨rfl, ?_⟩⟩
  exact h b.2 (hs f (Array.mem_toList_iff.mp hf) b hb)

end Curried
