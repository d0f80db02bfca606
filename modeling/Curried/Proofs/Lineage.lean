/-
  Curried.Proofs.Lineage — every frame descends from the globals.

  Closures are stored in frames older than the ones they were made in, so what frames bind refers back and forth.
  Parents do not: a frame is made inside one that is there, and keeps that parent. So the parents of a frame go back to
  the globals (`Store.Rooted.exists_lineage`), and nothing that a session runs, however it ends, leaves a reference to
  a frame that there is not (`Session.runs_grounded`).

  A name is searched along the parents until a frame has it. `Store.Search` is that search with nothing to bound its
  length, and says which frames it visits. It comes to an end from every frame of a session, and visits none twice.
-/

import Curried.Proofs.Isolation
import Curried.Proofs.Scopes

namespace Curried

def Value.captured? : Value → Option FrameId
  | .closure _ _ _ _ frame => some frame
  | _ => none

namespace Store

/-- A frame and its parents, out to one that has none. -/
inductive Lineage (s : Store) : FrameId → List FrameId → Prop
  | root {f : FrameId} : (s.frame f).parent = none → Lineage s f [f]
  | outer {f p : FrameId} {chain : List FrameId} : (s.frame f).parent = some p → Lineage s p chain →
      Lineage s f (f :: chain)

/-- The search for a name from a frame on: the frames it visits, and the one that has the name if one has. -/
inductive Search (s : Store) (n : String) : FrameId → List FrameId → Option FrameId → Prop
  | found {f : FrameId} : n ∈ (s.frame f).names → Search s n f [f] (some f)
  | unbound {f : FrameId} : n ∉ (s.frame f).names → (s.frame f).parent = none → Search s n f [f] none
  | outer {f p : FrameId} {visited : List FrameId} {owner : Option FrameId} : n ∉ (s.frame f).names →
      (s.frame f).parent = some p → Search s n p visited owner → Search s n f (f :: visited) owner

/-- What is answered for a name, and where it is rebound, when a search for it ends so. -/
def Answers (s : Store) (f : FrameId) (n : String) : Option FrameId → Prop
  | some owner => ∃ v, (s.frame owner).find? n = some v ∧ s.lookup? f n = some v ∧ s.get f n = .ok v ∧
      ∀ u, s.assign f n u = .ok (s.define owner n u)
  | none => s.lookup? f n = none ∧ s.get f n = .error (.of (.undefinedVariable n)) ∧
      ∀ u, s.assign f n u = .error (.of (.undefinedVariable n))

/-- All frames but one have a parent, which was made before them. -/
structure Rooted (s : Store) (root : FrameId) : Prop where
  made : root < s.size
  top : (s.frame root).parent = none
  older : ∀ f < s.size, f ≠ root → ∃ p < f, (s.frame f).parent = some p

structure Grounded (s : Store) (root : FrameId) : Prop extends s.Rooted root where
  captured : ∀ f ∈ s.frames, ∀ b ∈ f.bindings, ∀ v frame, b.2.Part v → v.captured? = some frame → frame < s.size

variable {s : Store} {root f : FrameId} {n : String}

/-! ## What is kept -/

namespace Rooted

theorem push_none (s : Store) (h : s.size = 0) : (s.push none).Rooted 0 where
  made := by
    rw [size_push]
    exact Nat.succ_pos _
  top := by rw [frame_push, if_pos h.symm]
  older f hf hne := by
    rw [size_push] at hf
    omega

theorem define (h : s.Rooted root) (id : FrameId) (name : String) (v : Value) : (s.define id name v).Rooted root where
  made := by
    rw [size_define]
    exact h.made
  top := (parent_define ..).trans h.top
  older f hf hne := by
    rw [size_define] at hf
    obtain ⟨p, hlt, hp⟩ := h.older f hf hne
    exact ⟨p, hlt, (parent_define ..).trans hp⟩

/-- A new frame is younger than the one it is made in. -/
theorem child (h : s.Rooted root) {parent : FrameId} (hparent : parent < s.size) : (s.child parent).Rooted root where
  made := by
    rw [Store.child, size_push]
    exact Nat.lt_succ_of_lt h.made
  top := by
    rw [Store.child, frame_push, if_neg (Nat.ne_of_lt h.made)]
    exact h.top
  older f hf hne := by
    rw [Store.child, size_push] at hf
    rw [Store.child, frame_push]
    by_cases hnew : f = s.size
    · rw [if_pos hnew]
      exact ⟨parent, hnew ▸ hparent, rfl⟩
    · rw [if_neg hnew]
      exact h.older f (by omega) hne

theorem entered {m : Machine} (h : m.store.Rooted root) {frame : FrameId} (hframe : frame < m.store.size)
    (params : List String) (v : Value) : (m.entered frame params v).store.Rooted root := by
  cases params with
  | nil => exact h.child hframe
  | cons p _ => exact (h.child hframe).define m.store.size p v

theorem ordered (h : s.Rooted root) : s.Ordered := by
  intro f p hp
  by_cases hf : f < s.size
  · by_cases hne : f = root
    · rw [hne, h.top] at hp
      cases hp
    · obtain ⟨q, hlt, hq⟩ := h.older f hf hne
      cases hp.symm.trans hq
      exact hlt
  · rw [frame_of_le (Nat.le_of_not_lt hf)] at hp
    cases hp

end Rooted

/-! ## Chains and searches -/

/-- Parents lead to the root, since each of them is older. -/
theorem Rooted.exists_lineage (h : s.Rooted root) (hf : f < s.size) :
    ∃ chain, s.Lineage f chain ∧ chain.getLast? = some root := by
  induction f using Nat.strongRecOn with
  | ind f ih =>
    by_cases hroot : f = root
    · subst hroot
      exact ⟨[f], .root h.top, rfl⟩
    · obtain ⟨p, hlt, hp⟩ := h.older f hf hroot
      obtain ⟨chain, hchain, hlast⟩ := ih p hlt (Nat.lt_trans hlt hf)
      refine ⟨f :: chain, .outer hp hchain, ?_⟩
      rw [List.getLast?_cons, hlast]
      rfl

namespace Lineage

variable {chain : List FrameId}

/-- Along a chain frames grow older. -/
theorem pairwise (hs : s.Ordered) (h : s.Lineage f chain) : chain.Pairwise (· > ·) ∧ ∀ k ∈ chain, k ≤ f := by
  induction h with
  | root => exact ⟨List.pairwise_singleton _ _, List.forall_mem_singleton.mpr (Nat.le_refl _)⟩
  | @outer f p chain hp _ ih =>
    have hlt : p < f := hs f p hp
    have hall : ∀ k ∈ chain, k < f := fun k hk => Nat.lt_of_le_of_lt (ih.2 k hk) hlt
    exact ⟨List.pairwise_cons.mpr ⟨hall, ih.1⟩,
      List.forall_mem_cons.mpr ⟨Nat.le_refl f, fun k hk => Nat.le_of_lt (hall k hk)⟩⟩

theorem nodup (hs : s.Ordered) (h : s.Lineage f chain) : chain.Nodup :=
  (h.pairwise hs).1.imp Nat.ne_of_gt

/-- A search goes along the chain and no further. -/
theorem exists_search (h : s.Lineage f chain) (n : String) :
    ∃ visited owner, s.Search n f visited owner ∧ visited <+: chain := by
  induction h with
  | @root f hp =>
    by_cases hn : n ∈ (s.frame f).names
    · exact ⟨[f], some f, .found hn, List.prefix_rfl⟩
    · exact ⟨[f], none, .unbound hn hp, List.prefix_rfl⟩
  | @outer f p chain hp _ ih =>
    by_cases hn : n ∈ (s.frame f).names
    · exact ⟨[f], some f, .found hn, List.prefix_append [f] chain⟩
    · obtain ⟨visited, owner, hsearch, hprefix⟩ := ih
      exact ⟨f :: visited, owner, .outer hn hp hsearch, List.cons_prefix_cons.mpr ⟨rfl, hprefix⟩⟩

end Lineage

namespace Search

variable {visited : List FrameId} {owner : Option FrameId}

theorem nearest (h : s.Search n f visited owner) : ∀ k, owner = some k → s.Nearest n f k := by
  induction h with
  | found hn =>
    rintro k ⟨⟩
    exact .self hn
  | unbound =>
    intro k hk
    cases hk
  | outer hn hp _ ih => exact fun k hk => .outer hn hp (ih k hk)

theorem not_mem_names (h : s.Search n f visited owner) (hnone : owner = none) :
    ∀ k, s.OnChain f k → n ∉ (s.frame k).names := by
  induction h with
  | found => cases hnone
  | unbound hn hp =>
    intro k hk
    cases hk with
    | self => exact hn
    | outer hq => cases hp.symm.trans hq
  | outer hn hp _ ih =>
    intro k hk
    cases hk with
    | self => exact hn
    | outer hq hk =>
      cases hp.symm.trans hq
      exact ih hnone k hk

/-- Looking up and assigning answer as the search ends. -/
theorem answers (hs : s.Ordered) (h : s.Search n f visited owner) : s.Answers f n owner := by
  cases owner with
  | some k =>
    have hnear := h.nearest k rfl
    obtain ⟨v, hv⟩ := Option.isSome_iff_exists.mp (Frame.isSome_find?.mpr hnear.onChain.2)
    have hlookup := lookup?_of_nearest hs hnear hv
    refine ⟨v, hv, hlookup, ?_, fun u => ?_⟩
    · rw [get, hlookup]
    · rw [assign, (resolve?_eq_some_iff hs).mpr ⟨hnear, hv⟩]
  | none =>
    have hresolve : s.resolve? f n = none := (resolve?_eq_none_iff hs).mpr (h.not_mem_names rfl)
    have hlookup : s.lookup? f n = none := by
      rw [lookup?, hresolve]
      rfl
    refine ⟨hlookup, ?_, fun u => ?_⟩
    · rw [get, hlookup]
    · rw [assign, hresolve]

end Search

end Store

/-! ## Runs -/

namespace Lineage

open Isolation

/-- Closures and expressions have frames that there are, and all frames descend from the globals. -/
def invariant : Invariant where
  value n := Local {frame | frame < n}
  program n _ frame := frame < n
  machine m := m.store.Rooted m.globals
  fault _ := True

theorem local_mono {n n' : Nat} (h : n ≤ n') {v : Value} (hv : Local {frame | frame < n} v) :
    Local {frame | frame < n'} v := by
  cases v with
  | closure => exact Nat.lt_of_lt_of_le hv h
  | native => exact hv
  | _ => trivial

theorem invariant_laws (h : Host) : invariant.Laws h where
  values hn hv := local_mono hn hv
  programs hn hframe := Nat.lt_of_lt_of_le hframe hn
  parts hframe _ _ := hframe
  make hframe _ := hframe
  enter _ _ _ := Nat.lt_succ_self _
  curry _ _ := Nat.lt_succ_self _
  collect hcode _ := hcode
  fresh hm := hm
  declare _ _ hm := hm.define _ _ _
  rebind _ hm := hm.define _ _ _
  entered {_ _ params _ frame v m} hframe hm := by
    have hglobals : (m.entered frame params v).globals = m.globals := congrArg (·.globals) (m.entered_eq frame params v)
    show (m.entered frame params v).store.Rooted (m.entered frame params v).globals
    rw [hglobals]
    exact hm.entered hframe params v
  write hm := hm
  input hm := hm
  atDepth hm := hm
  log _ hm := hm
  report _ _ hm := hm
  overflow _ hm := hm
  ordinary _ _ := trivial
  missing _ _ _ := trivial
  unknown _ _ := trivial
  refused _ := trivial
  blame _ _ := trivial
  extension hcode _ := absurd hcode nofun

theorem lt_of_local {n : Nat} {v : Value} {frame : FrameId} (hv : v.Each (Local {frame | frame < n}))
    (h : v.captured? = some frame) : frame < n := by
  cases v with
  | closure =>
    cases h
    exact Value.each_closure.mp hv
  | _ => cases h

theorem grounded_of_holds {m : Machine} (hm : invariant.Holds m) : m.store.Grounded m.globals :=
  ⟨hm.machine, fun f hf b hb _ _ hpart => lt_of_local ((hm.store f hf b hb).part hpart)⟩

end Lineage

namespace Session

open Lineage

theorem ofSettings_rooted (c : Settings) (args : Option (List String)) (input : List Char) :
    (ofSettings c args input).machine.store.Rooted (ofSettings c args input).machine.globals := by
  have hinstall : ∀ (ds : List Definition) {m : Machine}, m.store.Rooted m.globals →
      (ds.foldl Machine.defineNative m).store.Rooted (ds.foldl Machine.defineNative m).globals := by
    intro ds
    induction ds with
    | nil => exact id
    | cons d ds ih => exact fun hm => ih (m := Machine.defineNative _ d) (hm.define _ _ _)
  have hopen := hinstall Catalogue.standard.definitions (m := Machine.openGlobals { input := input })
    (Store.Rooted.push_none {} rfl)
  unfold ofSettings
  cases args with
  | none => exact hopen
  | some args => exact hopen.define _ _ _

theorem ofSettings_lineage (c : Settings) (args : Option (List String)) (input : List Char) :
    invariant.Holds (ofSettings c args input).machine :=
  ⟨ofSettings_each (fun d hd _ => Catalogue.standard_isStandard d hd) c args input, ofSettings_rooted c args input⟩

theorem run_lineage {s : Session} (hs : invariant.Holds s.machine) (source : String) :
    invariant.Holds (s.run source).2.machine := by
  cases h : parseWithin s.host.maxNesting source with
  | ok program => exact (Invariant.run_ended (invariant_laws s.host) id h hs.machine.made ⟨hs.store, hs.machine⟩).1
  | error x =>
    cases x with
    | lexical e =>
      rw [run_lexical h]
      exact ⟨hs.store, hs.machine⟩
    | grammar e =>
      rw [run_grammar h]
      exact ⟨hs.store, hs.machine⟩
    | nesting p =>
      rw [run_nesting h]
      exact ⟨hs.store, hs.machine⟩

theorem runs_lineage {s : Session} (hs : invariant.Holds s.machine) (sources : List String) :
    invariant.Holds (s.runs sources).machine := by
  induction sources generalizing s with
  | nil => exact hs
  | cons source sources ih => exact ih (run_lineage hs source)

/-- Whatever sources a session has run, and however the runs ended: parents and closures refer to frames that there
are, every frame but the globals is younger than its parent, and the parents of every frame lead to the globals without
coming to a frame twice. From every frame the search for a name ends; it visits frames of that chain, in order and each
once at most, and looking up, getting and assigning answer as it ends. -/
theorem runs_grounded (c : Settings) (args : Option (List String)) (input : List Char) (sources : List String) :
    let m := ((ofSettings c args input).runs sources).machine
    m.store.Grounded m.globals ∧
      (∀ f p, (m.store.frame f).parent = some p → p < m.store.size) ∧
      ∀ f < m.store.size, ∃ chain, m.store.Lineage f chain ∧ chain.getLast? = some m.globals ∧ chain.Nodup ∧
        (∀ k ∈ chain, k < m.store.size) ∧
        ∀ n, ∃ visited owner, m.store.Search n f visited owner ∧ visited <+: chain ∧ visited.Nodup ∧
          m.store.Answers f n owner := by
  intro m
  have hm : m.store.Grounded m.globals := grounded_of_holds (runs_lineage (ofSettings_lineage c args input) sources)
  have hordered := hm.ordered
  refine ⟨hm, fun f p hp => ?_, fun f hf => ?_⟩
  · by_cases hf : f < m.store.size
    · exact Nat.lt_trans (hordered f p hp) hf
    · rw [Store.frame_of_le (Nat.le_of_not_lt hf)] at hp
      cases hp
  · obtain ⟨chain, hchain, hlast⟩ := hm.exists_lineage hf
    have hnodup := hchain.nodup hordered
    refine ⟨chain, hchain, hlast, hnodup, fun k hk => Nat.lt_of_le_of_lt ((hchain.pairwise hordered).2 k hk) hf, ?_⟩
    intro n
    obtain ⟨visited, owner, hsearch, hprefix⟩ := hchain.exists_search n
    exact ⟨visited, owner, hsearch, hprefix, hnodup.sublist hprefix.sublist, hsearch.answers hordered⟩

/-- A function puts a closure of its own frame into the globals, which is then applied, and fails: the globals refer to
the frame inside them, and a frame inside that one still leads back to the globals. -/
theorem runs_grounded_cycle :
    let m := ((ofSettings {} none []).runs
      ["let g :: ()", "fn f(x) :: g :: fn(y) :: z end in x", "f(true)", "g(false)"]).machine
    (m.store.lookup? 0 "g").bind Value.captured? = some 1 ∧ (m.store.frame 1).parent = some 0 ∧
      (m.store.frame 2).parent = some 1 ∧ 2 < m.store.size ∧
      ∃ chain, m.store.Lineage 2 chain ∧ chain.getLast? = some 0 ∧ chain.Nodup ∧
        ∃ visited owner, m.store.Search "z" 2 visited owner ∧ visited <+: chain ∧ m.store.Answers 2 "z" owner := by
  intro m
  obtain ⟨hsize, hglobals, hclosure, hfirst, hsecond⟩ : 2 < m.store.size ∧ m.globals = 0 ∧
      (m.store.lookup? 0 "g").bind Value.captured? = some 1 ∧ (m.store.frame 1).parent = some 0 ∧
      (m.store.frame 2).parent = some 1 := by decide +kernel
  obtain ⟨-, -, hframes⟩ := runs_grounded {} none []
    ["let g :: ()", "fn f(x) :: g :: fn(y) :: z end in x", "f(true)", "g(false)"]
  obtain ⟨chain, hchain, hlast, hnodup, -, hsearches⟩ := hframes 2 hsize
  obtain ⟨visited, owner, hsearch, hprefix, -, hanswers⟩ := hsearches "z"
  exact ⟨hclosure, hfirst, hsecond, hsize, chain, hchain, hglobals ▸ hlast, hnodup, visited, owner, hsearch, hprefix,
    hanswers⟩

end Session

end Curried
