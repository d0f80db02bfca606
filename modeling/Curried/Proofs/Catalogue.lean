/-
  Curried.Proofs.Catalogue — what a catalogue has after any history of registering and clearing.

  A catalogue is compared with the registrations accepted since it was last cleared (`accepted`). It has one definition
  for each of their names, the last one, in the place of the first (`Holds`). Registering a name again keeps its place
  and may change its category, so the groups are determined by the definitions as they are now: a group is what the
  catalogue has in that category, and groups come in the order of their first members (`groups_eq`). The document says
  the same as the catalogue, by names (`Documents`).

  Both orders are the same notion, the order in which things occur first (`InFirstOrder`). It is kept by adding one
  more at the end, which is all that a registration and the grouping of one more definition do.
-/

import Curried.Catalogue.Document
import Curried.Catalogue.Standard
import Mathlib.Data.List.DropRight
import Mathlib.Data.List.Induction
import Mathlib.Data.List.Nodup

namespace Curried

/-! ## Order of first occurrence -/

/-- `order` has what occurs in `all`, in the order in which it occurs first. -/
structure InFirstOrder {α : Type} [BEq α] (all order : List α) : Prop where
  mem_iff : ∀ a, a ∈ order ↔ a ∈ all
  ordered : order.Pairwise fun a b => all.idxOf a < all.idxOf b

namespace InFirstOrder

variable {α : Type} [DecidableEq α] {all order : List α}

theorem nil : InFirstOrder ([] : List α) [] := ⟨fun _ => .rfl, .nil⟩

theorem nodup (h : InFirstOrder all order) : order.Nodup := by
  refine h.ordered.imp fun {a b} hlt heq => ?_
  subst heq
  exact Nat.lt_irrefl _ hlt

theorem append (h : InFirstOrder all order) (a : α) :
    InFirstOrder (all ++ [a]) (if a ∈ order then order else order ++ [a]) := by
  have hkept : order.Pairwise fun b c => (all ++ [a]).idxOf b < (all ++ [a]).idxOf c := by
    refine h.ordered.imp_of_mem fun hb hc hlt => ?_
    rwa [List.idxOf_append_of_mem ((h.mem_iff _).mp hb), List.idxOf_append_of_mem ((h.mem_iff _).mp hc)]
  by_cases ha : a ∈ order
  · rw [if_pos ha]
    refine ⟨fun b => ?_, hkept⟩
    rw [h.mem_iff, List.mem_append, List.mem_singleton]
    exact ⟨.inl, fun hb => hb.elim id fun e => e ▸ (h.mem_iff a).mp ha⟩
  · rw [if_neg ha]
    refine ⟨fun b => ?_, List.pairwise_append.mpr ⟨hkept, List.pairwise_singleton _ _, fun b hb c hc => ?_⟩⟩
    · rw [List.mem_append, List.mem_append, h.mem_iff]
    · rw [List.mem_singleton] at hc
      subst hc
      have hnew : c ∉ all := fun hc => ha ((h.mem_iff c).mpr hc)
      have hb : b ∈ all := (h.mem_iff b).mp hb
      rw [List.idxOf_append_of_mem hb, List.idxOf_append, if_neg hnew]
      exact Nat.lt_of_lt_of_le (List.idxOf_lt_length_iff.mpr hb) (Nat.le_add_left _ _)

end InFirstOrder

theorem Category.mem_all (c : Category) : c ∈ all := by cases c <;> decide

theorem Category.name_injective : Function.Injective Category.name := by
  have hall : ∀ a ∈ all, ∀ b ∈ all, a.name = b.name → a = b := by decide
  exact fun a b => hall a a.mem_all b b.mem_all

namespace Catalogue

open Text

/-! ## Histories -/

inductive Change where
  | register (d : Definition)
  | clear

def Change.isRegistration : Change → Bool
  | .register _ => true
  | .clear => false

def Change.accepted? : Change → Option Definition
  | .register d => if d.parameters = [] then none else some d
  | .clear => none

def change (c : Catalogue) : Change → Catalogue
  | .register d =>
    match c.register d with
    | .ok c' => c'
    | .error _ => c
  | .clear => {}

def after (history : List Change) : Catalogue := history.foldl change {}

/-- The definitions accepted since the last clearing, in the order of their registration. -/
def accepted (history : List Change) : List Definition :=
  (history.rtakeWhile Change.isRegistration).filterMap Change.accepted?

theorem after_concat (history : List Change) (x : Change) : after (history ++ [x]) = (after history).change x :=
  List.foldl_concat ..

theorem register_of_parameters (c : Catalogue) {d : Definition} (h : d.parameters ≠ []) :
    c.register d = .ok ⟨put d c.definitions⟩ := by
  rw [register, if_neg (by simpa using h)]

theorem register_of_no_parameters (c : Catalogue) {d : Definition} (h : d.parameters = []) :
    c.register d = .error (.noParameters d.name) := by
  rw [register, if_pos (by simpa using h)]

theorem change_register (c : Catalogue) {d : Definition} (h : d.parameters ≠ []) :
    c.change (.register d) = ⟨put d c.definitions⟩ := by
  rw [change, register_of_parameters c h]

theorem change_refused (c : Catalogue) {d : Definition} (h : d.parameters = []) : c.change (.register d) = c := by
  rw [change, register_of_no_parameters c h]

theorem accepted_register (history : List Change) {d : Definition} (h : d.parameters ≠ []) :
    accepted (history ++ [.register d]) = accepted history ++ [d] := by
  rw [accepted, List.rtakeWhile_concat_pos _ _ _ rfl, List.filterMap_append]
  simp [accepted, Change.accepted?, h]

theorem accepted_refused (history : List Change) {d : Definition} (h : d.parameters = []) :
    accepted (history ++ [.register d]) = accepted history := by
  rw [accepted, List.rtakeWhile_concat_pos _ _ _ rfl, List.filterMap_append]
  simp [accepted, Change.accepted?, h]

theorem accepted_clear (history : List Change) : accepted (history ++ [.clear]) = [] := by
  rw [accepted, List.rtakeWhile_concat_neg _ _ _ Bool.false_ne_true, List.filterMap_nil]

/-! ## One definition for each name -/

/-- `ds` has the last of the definitions `rs` for each name, in the order in which the names occur first. -/
structure Holds (rs ds : List Definition) : Prop where
  latest : ∀ d, d ∈ ds ↔ rs.reverse.find? (·.name == d.name) = some d
  names : InFirstOrder (rs.map (·.name)) (ds.map (·.name))

theorem names_put (d : Definition) (ds : List Definition) :
    (put d ds).map (·.name) =
      if d.name ∈ ds.map (·.name) then ds.map (·.name) else ds.map (·.name) ++ [d.name] := by
  induction ds with
  | nil => rfl
  | cons e ds ih =>
    by_cases he : e.name = d.name
    · simp [put, he]
    · have hne : ¬ d.name = e.name := fun h => he h.symm
      simp only [put, beq_iff_eq, he, if_false, List.map_cons, ih, List.mem_cons, hne, false_or]
      split <;> rfl

theorem mem_put {d : Definition} {ds : List Definition} (hnodup : (ds.map (·.name)).Nodup) (e : Definition) :
    e ∈ put d ds ↔ e = d ∨ e ∈ ds ∧ e.name ≠ d.name := by
  induction ds with
  | nil => simp [put]
  | cons f ds ih =>
    obtain ⟨hf, hnodup⟩ := List.nodup_cons.mp hnodup
    by_cases hname : f.name = d.name
    · -- the names behind the place taken are others
      have hothers : ∀ e ∈ ds, e.name ≠ d.name :=
        fun e he h => hf (List.mem_map.mpr ⟨e, he, h.trans hname.symm⟩)
      simp only [put, hname, BEq.rfl, if_true, List.mem_cons]
      grind
    · simp only [put, beq_iff_eq, hname, if_false, List.mem_cons, ih hnodup]
      grind

theorem Holds.put {rs ds : List Definition} (h : Holds rs ds) (d : Definition) :
    Holds (rs ++ [d]) (Catalogue.put d ds) := by
  constructor
  · intro e
    rw [mem_put h.names.nodup, List.reverse_append, List.reverse_singleton, List.singleton_append, List.find?_cons]
    by_cases hname : d.name = e.name
    · simp only [hname, BEq.rfl, ne_eq, not_true, and_false, or_false, Option.some.injEq]
      exact eq_comm
    · have hne : e ≠ d := fun heq => hname (heq ▸ rfl)
      simp only [beq_false_of_ne hname, h.latest e, hne, false_or, ne_eq, Ne.symm hname, not_false_iff, and_true]
  · rw [names_put, List.map_append]
    exact h.names.append d.name

theorem holds_after (history : List Change) : Holds (accepted history) (after history).definitions := by
  induction history using List.reverseRecOn with
  | nil => exact ⟨fun d => by simp [after, accepted], .nil⟩
  | append_singleton history x ih =>
    rw [after_concat]
    cases x with
    | clear =>
      rw [accepted_clear]
      exact ⟨fun d => by simp [change], .nil⟩
    | register d =>
      by_cases hd : d.parameters = []
      · rwa [accepted_refused history hd, change_refused _ hd]
      · rw [accepted_register history hd, change_register _ hd]
        exact ih.put d

/-! ## Categories -/

theorem mem_inCategory {c : Catalogue} {category : Category} {d : Definition} :
    d ∈ c.inCategory category ↔ d ∈ c.definitions ∧ d.category = category := by
  rw [inCategory, List.mem_filter, beq_iff_eq]

theorem flatMap_inCategory (c : Catalogue) {categories : List Category} (hnodup : categories.Nodup) :
    (categories.flatMap c.inCategory).Perm (c.definitions.filter (·.category ∈ categories)) := by
  induction categories with
  | nil => simp
  | cons category categories ih =>
    obtain ⟨hcategory, hnodup⟩ := List.nodup_cons.mp hnodup
    have hthis : (c.definitions.filter (·.category ∈ category :: categories)).filter (·.category == category) =
        c.inCategory category := by
      rw [List.filter_filter, inCategory]
      exact List.filter_congr fun d _ => by grind
    have hothers : (c.definitions.filter (·.category ∈ category :: categories)).filter (!·.category == category) =
        c.definitions.filter (·.category ∈ categories) := by
      rw [List.filter_filter]
      exact List.filter_congr fun d _ => by grind
    have hsplit := List.filter_append_perm (·.category == category)
      (c.definitions.filter (·.category ∈ category :: categories))
    rw [hthis, hothers] at hsplit
    rw [List.flatMap_cons]
    exact ((ih hnodup).append_left _).trans hsplit

/-- The names in the categories that occur, one category after the other, are the names of the catalogue. -/
theorem names_grouped (c : Catalogue) {order : List Category}
    (horder : InFirstOrder (c.definitions.map (·.category)) order) :
    (order.flatMap fun category => (c.inCategory category).map (·.name)).Perm c.names := by
  have hall : c.definitions.filter (·.category ∈ order) = c.definitions :=
    List.filter_eq_self.mpr fun d hd =>
      decide_eq_true ((horder.mem_iff d.category).mpr (List.mem_map_of_mem hd))
  have hdefinitions := c.flatMap_inCategory horder.nodup
  rw [hall] at hdefinitions
  rw [← List.map_flatMap]
  exact hdefinitions.map (·.name)

/-- The lists of all categories, one after the other, have the definitions of the catalogue and no others. -/
theorem flatMap_inCategory_all (c : Catalogue) : (Category.all.flatMap c.inCategory).Perm c.definitions := by
  have hall : c.definitions.filter (·.category ∈ Category.all) = c.definitions :=
    List.filter_eq_self.mpr fun d _ => decide_eq_true (Category.mem_all d.category)
  exact hall ▸ c.flatMap_inCategory (by decide)

theorem addToGroup_eq (d : Definition) {order : List Category} (f : Category → List Definition)
    (hnodup : order.Nodup) (hnew : d.category ∉ order → f d.category = []) :
    addToGroup d (order.map fun category => (category, f category)) =
      (if d.category ∈ order then order else order ++ [d.category]).map fun category =>
        (category, if d.category = category then f category ++ [d] else f category) := by
  induction order with
  | nil => simp [addToGroup, hnew]
  | cons category order ih =>
    obtain ⟨hcategory, hnodup⟩ := List.nodup_cons.mp hnodup
    by_cases hsame : d.category = category
    · subst hsame
      have hothers : ∀ category ∈ order, ¬ d.category = category := fun _ h heq => hcategory (heq ▸ h)
      simp only [List.map_cons, addToGroup, BEq.rfl, if_true, List.mem_cons_self]
      congr 1
      exact List.map_congr_left fun category h => by rw [if_neg (hothers category h)]
    · have hne : ¬ category = d.category := fun h => hsame h.symm
      have hmem : d.category ∈ category :: order ↔ d.category ∈ order := by simp [hsame]
      simp only [List.map_cons, addToGroup, beq_iff_eq, hne, if_false, hmem,
        ih hnodup fun h => hnew fun hin => h (hmem.mp hin)]
      split <;> simp [hsame]

theorem inCategory_concat (ds : List Definition) (d : Definition) (category : Category) :
    inCategory ⟨ds ++ [d]⟩ category =
      if d.category = category then inCategory ⟨ds⟩ category ++ [d] else inCategory ⟨ds⟩ category := by
  by_cases h : d.category = category <;> simp [inCategory, h]

/-- A group is what the catalogue has in a category, and groups come in the order of their first members. -/
theorem groups_eq (c : Catalogue) : ∃ order, InFirstOrder (c.definitions.map (·.category)) order ∧
    c.groups = order.map fun category => (category, c.inCategory category) := by
  obtain ⟨ds⟩ := c
  induction ds using List.reverseRecOn with
  | nil => exact ⟨[], .nil, rfl⟩
  | append_singleton ds d ih =>
    obtain ⟨order, horder, hgroups⟩ := ih
    refine ⟨_, by simpa using horder.append d.category, ?_⟩
    have hstep : groups ⟨ds ++ [d]⟩ = addToGroup d (groups ⟨ds⟩) := List.foldl_concat ..
    have hnew : d.category ∉ order → inCategory ⟨ds⟩ d.category = [] := by
      intro hnot
      rw [horder.mem_iff] at hnot
      exact List.filter_eq_nil_iff.mpr fun e he heq => hnot (List.mem_map.mpr ⟨e, he, by simpa using heq⟩)
    rw [hstep, hgroups, addToGroup_eq d _ horder.nodup hnew]
    exact List.map_congr_left fun category _ => by rw [inCategory_concat]

/-- The catalogue of one category has one group, or none if nothing is in it. -/
theorem groups_select (c : Catalogue) (category : Category) :
    (c.select (some category)).groups =
      if c.inCategory category = [] then [] else [(category, c.inCategory category)] := by
  obtain ⟨order, horder, hgroups⟩ := (c.select (some category)).groups_eq
  have hsame : (c.select (some category)).inCategory category = c.inCategory category :=
    List.filter_eq_self.mpr fun d hd => beq_iff_eq.mpr (mem_inCategory.mp hd).2
  have hcategories : ∀ k ∈ order, k = category := by
    intro k hk
    obtain ⟨d, hd, rfl⟩ := List.mem_map.mp ((horder.mem_iff k).mp hk)
    exact (mem_inCategory.mp hd).2
  rw [hgroups]
  by_cases hempty : c.inCategory category = []
  · have hnone : order = [] := by
      refine List.eq_nil_iff_forall_not_mem.mpr fun k hk => ?_
      obtain ⟨d, hd, -⟩ := List.mem_map.mp ((horder.mem_iff k).mp hk)
      have hd : d ∈ c.inCategory category := hd
      rw [hempty] at hd
      exact List.not_mem_nil hd
    rw [if_pos hempty, hnone, List.map_nil]
  · obtain ⟨d, hd⟩ := List.exists_mem_of_ne_nil _ hempty
    have hmem : category ∈ order :=
      (horder.mem_iff category).mpr (List.mem_map.mpr ⟨d, hd, (mem_inCategory.mp hd).2⟩)
    have hone : order = [category] := by
      refine List.perm_singleton.mp ((List.perm_ext_iff_of_nodup horder.nodup (List.nodup_singleton _)).mpr fun k => ?_)
      exact ⟨fun hk => List.mem_singleton.mpr (hcategories k hk), fun hk => List.mem_singleton.mp hk ▸ hmem⟩
    rw [if_neg hempty, hone, List.map_singleton, hsame]

/-! ## Documents -/

def entries (key : String) (document : Json) : List (String × Json) :=
  match document.field? key with
  | some (.object fields) => fields
  | _ => []

def members : Json → List Json
  | .list items => items
  | _ => []

/-- A document has functions under some names, each with its own name in it, and has them again in some groups, by
their names. What a group has is what the functions have, and is of the category that the group is for. -/
structure Documents (document : Json) (names : List String) (groups : List (String × List String)) : Prop where
  functions : (entries "functions" document).map (fun f => (f.1, f.2.field? "name")) =
    names.map fun name => (name, some (.text name))
  groups : (entries "byCategory" document).map (fun g => (g.1, (members g.2).map (·.field? "name"))) =
    groups.map fun g => (g.1, g.2.map fun name => some (.text name))
  shared : ∀ g ∈ entries "byCategory" document, ∀ entry ∈ members g.2,
    entry.field? "category" = some (.text g.1) ∧ ∃ name, (name, entry) ∈ entries "functions" document

theorem field?_name (d : Definition) : d.document.field? "name" = some (.text d.name) := rfl

theorem field?_category (d : Definition) : d.document.field? "category" = some (.text d.category.name) := rfl

theorem entries_functions (c : Catalogue) :
    entries "functions" c.document = c.definitions.map fun d => (d.name, d.document) := rfl

theorem entries_byCategory (c : Catalogue) :
    entries "byCategory" c.document =
      c.groups.map fun g => (g.1.name, .list (g.2.map (·.document))) := rfl

theorem mem_groups {c : Catalogue} {g : Category × List Definition} (h : g ∈ c.groups) : g.2 = c.inCategory g.1 := by
  obtain ⟨order, -, hgroups⟩ := c.groups_eq
  rw [hgroups] at h
  obtain ⟨category, -, rfl⟩ := List.mem_map.mp h
  rfl

theorem document_documents (c : Catalogue) :
    Documents c.document c.names (c.groups.map fun g => (g.1.name, g.2.map (·.name))) := by
  constructor
  · rw [entries_functions, names, List.map_map, List.map_map]
    exact List.map_congr_left fun d _ => congrArg (d.name, ·) (field?_name d)
  · rw [entries_byCategory, List.map_map, List.map_map]
    refine List.map_congr_left fun g _ => congrArg (g.1.name, ·) ?_
    rw [members, List.map_map, List.map_map]
    exact List.map_congr_left fun d _ => field?_name d
  · intro g hg entry hentry
    rw [entries_byCategory] at hg
    obtain ⟨⟨category, ds⟩, hgroup, rfl⟩ := List.mem_map.mp hg
    obtain ⟨d, hd, rfl⟩ := List.mem_map.mp hentry
    rw [mem_groups hgroup] at hd
    obtain ⟨hmem, rfl⟩ := mem_inCategory.mp hd
    rw [entries_functions]
    exact ⟨field?_category d, d.name, List.mem_map_of_mem hmem⟩

/-! ## All views together -/

/-- After any history a catalogue has each name accepted since it was last cleared once, in the order of the first
registrations and with the last definition; its categories share the definitions out and keep their order; its
document has the same names as functions, and has each of them once in the group of its category, in the order of the
first members; and a registration that is refused makes no difference to anything that comes later. -/
theorem after_consistent (history : List Change) :
    let c := after history
    (Holds (accepted history) c.definitions ∧ c.names.Nodup) ∧
      ((∀ category, (c.inCategory category).Sublist c.definitions ∧
          ∀ d, d ∈ c.inCategory category ↔ d ∈ c.definitions ∧ d.category = category) ∧
        (Category.all.flatMap c.inCategory).Perm c.definitions) ∧
      (∃ order, InFirstOrder (c.definitions.map (·.category)) order ∧ (order.map (·.name)).Nodup ∧
        c.groups = order.map (fun category => (category, c.inCategory category)) ∧
        (order.flatMap fun category => (c.inCategory category).map (·.name)).Perm c.names ∧
        Documents c.document c.names
          (order.map fun category => (category.name, (c.inCategory category).map (·.name)))) ∧
      (∀ category,
        (c.select (some category)).groups =
          (if c.inCategory category = [] then [] else [(category, c.inCategory category)]) ∧
        Documents (c.select (some category)).document ((c.inCategory category).map (·.name))
          (if c.inCategory category = [] then [] else [(category.name, (c.inCategory category).map (·.name))])) ∧
      ∀ d later,
        (d.parameters = [] → c.register d = .error (.noParameters d.name) ∧
          after (history ++ .register d :: later) = after (history ++ later)) ∧
        (d.parameters ≠ [] → c.register d = .ok (after (history ++ [.register d]))) := by
  intro c
  have hholds : Holds (accepted history) c.definitions := holds_after history
  refine ⟨⟨hholds, hholds.names.nodup⟩, ⟨?_, c.flatMap_inCategory_all⟩, ?_, ?_, ?_⟩
  · intro category
    exact ⟨List.filter_sublist, fun d => mem_inCategory⟩
  · obtain ⟨order, horder, hgroups⟩ := c.groups_eq
    have hdocument := c.document_documents
    rw [hgroups, List.map_map] at hdocument
    exact ⟨order, horder, horder.nodup.map Category.name_injective, hgroups, c.names_grouped horder, hdocument⟩
  · intro category
    have hdocument := (c.select (some category)).document_documents
    rw [c.groups_select category, apply_ite (List.map _)] at hdocument
    exact ⟨c.groups_select category, hdocument⟩
  · intro d later
    constructor
    · intro hd
      refine ⟨register_of_no_parameters c hd, ?_⟩
      rw [after, List.foldl_append, List.foldl_cons, change_refused _ hd, ← List.foldl_append]
      rfl
    · intro hd
      rw [after_concat, change_register _ hd, register_of_parameters c hd]

def bare (name : String) (category : Category) : Definition :=
  ⟨name, "", category, [⟨"x", "any", ""⟩], "any", [], .extension name⟩

/-- The last registration moves `f` from the first group to the one of `g`, which then comes first. -/
def regrouping : List Change :=
  [.register (bare "h" .io), .clear, .register (bare "f" .math), .register (bare "g" .list), .register (bare "h" .math),
    .register (bare "f" .list)]

def bareDocument (name signature category : String) : Json :=
  .object [
    ("name", .text name),
    ("signature", .text signature),
    ("description", .text ""),
    ("category", .text category),
    ("parameters", .list [.object [("name", .text "x"), ("type", .text "any"), ("description", .text "")]]),
    ("returnType", .text "any"),
    ("examples", .list [])]

theorem after_consistent_regrouped :
    (after regrouping).names = ["f", "g", "h"] ∧
      (after regrouping).groups = [(.list, [bare "f" .list, bare "g" .list]), (.math, [bare "h" .math])] ∧
      (after regrouping).document = .object [
        ("functions", .object [("f", bareDocument "f" "f(x)" "list"), ("g", bareDocument "g" "g(x)" "list"),
          ("h", bareDocument "h" "h(x)" "math")]),
        ("byCategory", .object [
          ("list", .list [bareDocument "f" "f(x)" "list", bareDocument "g" "g(x)" "list"]),
          ("math", .list [bareDocument "h" "h(x)" "math"])])] ∧
      ((after regrouping).select (some .math)).document = .object [
        ("functions", .object [("h", bareDocument "h" "h(x)" "math")]),
        ("byCategory", .object [("math", .list [bareDocument "h" "h(x)" "math"])])] ∧
      Documents ((after regrouping).select (some .math)).document ["h"] [("math", ["h"])] ∧
      (after regrouping).register { bare "g" .io with parameters := [] } = .error (.noParameters "g") ∧
      after (regrouping ++ [.register { bare "g" .io with parameters := [] }, .register (bare "k" .io)]) =
        after (regrouping ++ [.register (bare "k" .io)]) ∧
      (after regrouping).register (bare "k" .io) = .ok (after (regrouping ++ [.register (bare "k" .io)])) := by
  obtain ⟨-, -, -, hselect, hregister⟩ := after_consistent regrouping
  obtain ⟨hrefused, hsame⟩ :=
    (hregister { bare "g" .io with parameters := [] } [.register (bare "k" .io)]).1 rfl
  exact ⟨by decide, by decide, rfl, rfl, (hselect .math).2, hrefused, hsame,
    (hregister (bare "k" .io) []).2 (List.cons_ne_nil _ _)⟩

/-! ## The standard catalogue -/

theorem put_of_new {d : Definition} {ds : List Definition} (h : d.name ∉ ds.map (·.name)) : put d ds = ds ++ [d] := by
  induction ds with
  | nil => rfl
  | cons e ds ih =>
    obtain ⟨hne, hrest⟩ := List.ne_and_not_mem_of_not_mem_cons h
    rw [put, if_neg (by simpa using hne.symm), ih hrest, List.cons_append]

theorem after_registrations {ds : List Definition} (hnames : (ds.map (·.name)).Nodup)
    (hparameters : ∀ d ∈ ds, d.parameters ≠ []) : after (ds.map .register) = ⟨ds⟩ := by
  induction ds using List.reverseRecOn with
  | nil => rfl
  | append_singleton ds d ih =>
    rw [List.map_append, List.map_singleton, List.nodup_append] at hnames
    obtain ⟨hnames, -, hnew⟩ := hnames
    have hd : d.name ∉ ds.map (·.name) := fun h => hnew _ h _ (List.mem_singleton_self _) rfl
    rw [List.map_append, List.map_singleton, after_concat,
      ih hnames fun e he => hparameters e (List.mem_append_left _ he),
      change_register _ (hparameters d (List.mem_append_right _ (List.mem_singleton_self d))), put_of_new hd]

/-- The standard catalogue is what registering its definitions one after the other makes, so that all this holds of
what is registered in addition to them. -/
theorem after_standard (later : List Change) :
    after (standard.definitions.map .register ++ later) = later.foldl change standard := by
  have hstandard : after (standard.definitions.map .register) = standard :=
    after_registrations (by decide) (by decide)
  rw [after, List.foldl_append]
  exact congrArg (later.foldl change) hstandard

end Catalogue

end Curried
