/-
  Curried.Proofs.Places.Reading — what is read stands where the tokens stand.

  A parser takes every position from a token it has seen or from an expression it has read. So when all tokens of a
  stream have their positions in a set, all expressions inside what is read from them have theirs in it too, and so has
  a failure to read (`parseWithin_within`). It knows the operators of the language and its forms, and makes no
  expression with others (`parseWithin_known`).
-/

import Curried.Proofs.Parts
import Curried.Proofs.Places
import Curried.Proofs.Run

namespace Curried

structure Tokens.Within (T : Position → Prop) (ts : Tokens) : Prop where
  front : ∀ t ∈ ts.front, T t.position
  ending : ∀ t, ts.ending = .ok t → T t.position
  refused : ∀ e, ts.ending = .error e → T e.position

namespace Expr

def Known (e : Expr) : Prop := ∀ d, e.Node d → d.unknown? = none

structure ReadFrom (T : Position → Prop) (e : Expr) : Prop where
  within : e.Within T
  known : e.Known

theorem known_of {e : Expr} (hself : e.unknown? = none) (hparts : ∀ x ∈ e.parts, x.Known)
    (hbody : ∀ p name params b next, e = function p name params b next → b.Known) : e.Known := by
  intro d hd
  cases hd with
  | self => exact hself
  | part hx hd => exact hparts _ hx d hd
  | body hd => exact hbody _ _ _ _ _ rfl d hd

theorem readFrom_of {T : Position → Prop} {e : Expr} (hp : T e.position) (hself : e.unknown? = none)
    (hparts : ∀ x ∈ e.parts, x.ReadFrom T)
    (hbody : ∀ p name params b next, e = function p name params b next → b.ReadFrom T) : e.ReadFrom T where
  within := within_of hp (fun x hx => (hparts x hx).within) fun _ _ _ _ _ he => (hbody _ _ _ _ _ he).within
  known := known_of hself (fun x hx => (hparts x hx).known) fun _ _ _ _ _ he => (hbody _ _ _ _ _ he).known

theorem ReadFrom.position {T : Position → Prop} {e : Expr} (h : e.ReadFrom T) : T e.position := h.within.position

end Expr

namespace Parser

variable {α β : Type} {T : Position → Prop}

/-- What becomes of tokens whose positions are in a set: something is read of which `Q` holds, or reading fails at a
position in the set. -/
inductive Read (T : Position → Prop) (Q : α → Prop) : Except ParseFailure (α × Tokens) → Prop
  | ok {a : α} {ts : Tokens} : Q a → ts.Within T → Read T Q (.ok (a, ts))
  | error {x : ParseFailure} : T x.position → Read T Q (.error x)

def Reads (T : Position → Prop) (Q : α → Prop) (x : Parser α) : Prop := ∀ ts, ts.Within T → Read T Q (x ts)

/-! ## Sequencing -/

theorem Reads.pure {Q : α → Prop} {a : α} (h : Q a) : Reads T Q (pure a) := fun _ hts => .ok h hts

theorem Reads.bind {Q : α → Prop} {Q' : β → Prop} {x : Parser α} {f : α → Parser β} (h : Reads T Q x)
    (hf : ∀ a, Q a → Reads T Q' (f a)) : Reads T Q' (x >>= f) := by
  intro ts hts
  have hx := h ts hts
  show Read T Q' ((x ts).bind fun r => f r.1 r.2)
  generalize x ts = r at hx
  cases hx with
  | ok ha hrest => exact hf _ ha _ hrest
  | error hx => exact .error hx

/-- A test, and two ways to go on. -/
theorem Reads.branch {Q : Bool → Prop} {Q' : α → Prop} {x : Parser Bool} {a b : Parser α} (h : Reads T Q x)
    (hyes : Reads T Q' a) (hno : Reads T Q' b) : Reads T Q' (x >>= fun p => if p then a else b) := by
  refine h.bind fun p _ => ?_
  cases p
  · exact hno
  · exact hyes

/-! ## Single tokens -/

theorem peek_reads : Reads T (fun t => T t.position) peek := by
  rintro ⟨front, ending, size, hsize⟩ ⟨hfront, hending, hrefused⟩
  unfold peek
  dsimp only at hfront hending hrefused ⊢
  cases front with
  | cons t front => exact .ok (hfront t List.mem_cons_self) ⟨hfront, hending, hrefused⟩
  | nil =>
    cases ending with
    | ok t => exact .ok (hending t rfl) ⟨hfront, hending, hrefused⟩
    | error e => exact .error (hrefused e rfl)

theorem advance_reads : Reads T (fun _ => True) advance :=
  fun _ hts => .ok trivial ⟨fun t ht => hts.front t (List.mem_of_mem_tail ht), hts.ending, hts.refused⟩

theorem remaining_reads : Reads T (fun _ => True) remaining := fun _ hts => .ok trivial hts

theorem unexpected_reads {Q : α → Prop} (wanted : Wanted) : Reads T Q (unexpected wanted) :=
  peek_reads.bind fun _ ht _ _ => .error ht

theorem sees_reads (lexeme : Lexeme) : Reads T (fun _ => True) (sees lexeme) :=
  peek_reads.bind fun _ _ => .pure trivial

theorem accept_reads (lexeme : Lexeme) : Reads T (fun _ => True) (accept lexeme) :=
  (sees_reads lexeme).branch (advance_reads.bind fun _ _ => .pure trivial) (.pure trivial)

theorem expect_reads (lexeme : Lexeme) (wanted : Wanted) : Reads T (fun _ => True) (expect lexeme wanted) := by
  refine (accept_reads lexeme).bind fun p _ => ?_
  cases p
  · exact unexpected_reads wanted
  · exact .pure trivial

theorem expectName_reads (wanted : Wanted) : Reads T (fun _ => True) (expectName wanted) := by
  refine peek_reads.bind fun t _ => ?_
  cases t.lexeme with
  | name n => exact advance_reads.bind fun _ _ => .pure trivial
  | _ => exact unexpected_reads wanted

theorem optionalName_reads : Reads T (fun _ => True) optionalName := by
  refine peek_reads.bind fun t _ => ?_
  cases t.lexeme with
  | name n => exact advance_reads.bind fun _ _ => .pure trivial
  | _ => exact .pure trivial

/-! ## Lists -/

theorem moreItems_reads {Q : α → Prop} {item : Parser α} (h : Reads T Q item) :
    ∀ fuel, Reads T (fun xs => ∀ x ∈ xs, Q x) (moreItems item fuel)
  | 0 => .pure nofun
  | fuel + 1 => (accept_reads _).branch
      (h.bind fun _ hx => (moreItems_reads h fuel).bind fun _ hxs => .pure (List.forall_mem_cons.mpr ⟨hx, hxs⟩))
      (.pure nofun)

theorem itemsUntil_reads {Q : α → Prop} {item : Parser α} (h : Reads T Q item) (close : Symbol) :
    Reads T (fun xs => ∀ x ∈ xs, Q x) (itemsUntil item close) := by
  refine (sees_reads _).branch (.pure nofun) ?_
  refine h.bind fun x hx => remaining_reads.bind fun n _ => ?_
  exact (moreItems_reads h n).bind fun _ hxs => .pure (List.forall_mem_cons.mpr ⟨hx, hxs⟩)

/-! ## Operators -/

structure Tail.ReadFrom (T : Position → Prop) (t : Tail) : Prop where
  position : T t.position
  known : t.op.builtin? ≠ none
  operand : t.operand.ReadFrom T

def Level.IsKnown (l : Level) : Prop := ∀ s op, l.operator? s = some op → op.builtin? ≠ none

theorem levels_known : ∀ l ∈ levels, l.IsKnown := by
  intro l hl s op h
  simp only [levels, List.mem_cons, List.not_mem_nil, or_false] at hl
  rcases hl with rfl | rfl | rfl | rfl | rfl | rfl | rfl <;> dsimp only at h <;> split at h <;> cases h <;> nofun

theorem operatorAt_some {operator? : Symbol → Option BinaryOp} {t : Token} {op : BinaryOp} {p : Position}
    (h : operatorAt operator? t = some (op, p)) : p = t.position ∧ ∃ s, operator? s = some op := by
  unfold operatorAt at h
  split at h
  · rename_i s _
    obtain ⟨op', hop, he⟩ := Option.map_eq_some_iff.mp h
    cases he
    exact ⟨rfl, s, hop⟩
  · cases h

theorem tails_read {l : Level} (hl : l.IsKnown) {operand : Parser Expr} (h : Reads T (Expr.ReadFrom T) operand) :
    ∀ fuel, Reads T (fun ts => ∀ t ∈ ts, t.ReadFrom T) (tails l.operator? operand fuel)
  | 0 => .pure nofun
  | fuel + 1 => by
    refine peek_reads.bind fun t ht => ?_
    cases hop : operatorAt l.operator? t with
    | none => exact .pure nofun
    | some o =>
      obtain ⟨op, p⟩ := o
      obtain ⟨hp, s, hs⟩ := operatorAt_some hop
      refine advance_reads.bind fun _ _ => h.bind fun x hx => ?_
      refine (tails_read hl h fuel).bind fun _ hrest => .pure (List.forall_mem_cons.mpr ⟨?_, hrest⟩)
      exact ⟨hp ▸ ht, hl s op hs, hx⟩

theorem readFrom_binary {t : Tail} {left right : Expr} (ht : t.ReadFrom T) (hl : left.ReadFrom T)
    (hr : right.ReadFrom T) : (Expr.binary t.position t.op left right).ReadFrom T := by
  refine Expr.readFrom_of ht.position ?_ (by simp [Expr.parts, hl, hr]) nofun
  have hop := ht.known
  unfold Expr.unknown?
  cases h : t.op with
  | unknown s => exact absurd (by rw [h]; rfl) hop
  | _ => rfl

theorem groupLeft_readFrom {rest : List Tail} (h : ∀ t ∈ rest, t.ReadFrom T) :
    ∀ {first : Expr}, first.ReadFrom T → (groupLeft first rest).ReadFrom T := by
  induction rest with
  | nil => exact id
  | cons t rest ih =>
    obtain ⟨ht, hrest⟩ := List.forall_mem_cons.mp h
    exact fun hfirst => ih hrest (readFrom_binary ht hfirst ht.operand)

theorem groupRight_readFrom {rest : List Tail} (h : ∀ t ∈ rest, t.ReadFrom T) :
    ∀ {first : Expr}, first.ReadFrom T → (groupRight first rest).ReadFrom T := by
  induction rest with
  | nil => exact id
  | cons t rest ih =>
    obtain ⟨ht, hrest⟩ := List.forall_mem_cons.mp h
    exact fun hfirst => readFrom_binary ht hfirst (ih hrest ht.operand)

theorem Level.read_reads {l : Level} (hl : l.IsKnown) {operand : Parser Expr} (h : Reads T (Expr.ReadFrom T) operand) :
    Reads T (Expr.ReadFrom T) (l.read operand) := by
  refine h.bind fun first hfirst => remaining_reads.bind fun n _ => ?_
  refine (tails_read hl h n).bind fun rest hrest => .pure ?_
  cases l.grouping with
  | left => exact groupLeft_readFrom hrest hfirst
  | right => exact groupRight_readFrom hrest hfirst

theorem climb_reads {operand : Parser Expr} (h : Reads T (Expr.ReadFrom T) operand) :
    ∀ ls, (∀ l ∈ ls, l.IsKnown) → Reads T (Expr.ReadFrom T) (climb operand ls)
  | [], _ => h
  | _ :: ls, hls => Level.read_reads (List.forall_mem_cons.mp hls).1 (climb_reads h ls (List.forall_mem_cons.mp hls).2)

theorem unaryAt_some {t : Token} {op : UnaryOp} {p : Position} (h : unaryAt t = some (op, p)) :
    p = t.position ∧ ∀ operand, (Expr.unary p op operand).unknown? = none := by
  unfold unaryAt at h
  split at h <;> cases h <;> exact ⟨rfl, fun _ => rfl⟩

theorem unary_reads {operand : Parser Expr} (h : Reads T (Expr.ReadFrom T) operand) :
    ∀ fuel, Reads T (Expr.ReadFrom T) (unary operand fuel)
  | 0 => h
  | fuel + 1 => by
    refine peek_reads.bind fun t ht => ?_
    cases hop : unaryAt t with
    | none => exact h
    | some o =>
      obtain ⟨op, p⟩ := o
      obtain ⟨hp, hknown⟩ := unaryAt_some hop
      refine advance_reads.bind fun _ _ => (unary_reads h fuel).bind fun x hx => .pure ?_
      exact Expr.readFrom_of (hp ▸ ht) (hknown x) (by simp [Expr.parts, hx]) nofun

theorem sequenceTail_reads {operand : Parser Expr} (h : Reads T (Expr.ReadFrom T) operand) :
    ∀ fuel {first : Expr}, first.ReadFrom T → Reads T (Expr.ReadFrom T) (sequenceTail operand fuel first)
  | 0, _, hfirst => .pure hfirst
  | fuel + 1, _, hfirst => by
    refine (accept_reads _).branch ?_ (.pure hfirst)
    refine h.bind fun next hnext => (sequenceTail_reads h fuel hnext).bind fun rest hrest => .pure ?_
    exact Expr.readFrom_of hfirst.position rfl (by simp [Expr.parts, hfirst, hrest]) nofun

/-! ## Constructs -/

variable {inner : Parser Expr} (hi : Reads T (Expr.ReadFrom T) inner)
include hi

theorem assignment_reads {target : Parser Expr} (h : Reads T (Expr.ReadFrom T) target) :
    Reads T (Expr.ReadFrom T) (assignment inner target) := by
  refine h.bind fun t ht => (accept_reads _).branch ?_ (.pure ht)
  refine hi.bind fun v hv => (expect_reads _ _).bind fun _ _ => hi.bind fun n hn => .pure ?_
  exact Expr.readFrom_of ht.position rfl (by simp [Expr.parts, ht, hv, hn]) nofun

theorem calls_read : ∀ fuel {callee : Expr}, callee.ReadFrom T → Reads T (Expr.ReadFrom T) (calls inner fuel callee)
  | 0, _, hc => .pure hc
  | fuel + 1, _, hc => by
    refine (accept_reads _).branch ?_ (.pure hc)
    refine (itemsUntil_reads hi _).bind fun args hargs => (expect_reads _ _).bind fun _ _ => ?_
    exact calls_read fuel (Expr.readFrom_of hc.position rfl (List.forall_mem_cons.mpr ⟨hc, hargs⟩) nofun)

omit hi in
theorem parameters_read : Reads T (fun _ => True) parameters := by
  refine (accept_reads _).branch ?_ (.pure trivial)
  refine (itemsUntil_reads (expectName_reads _) _).bind fun names _ => ?_
  exact (expect_reads _ _).bind fun _ _ => .pure trivial

omit hi in
theorem chained_reads {decl : Parser Expr} (h : Reads T (Expr.ReadFrom T) decl) :
    Reads T (fun o => ∀ e ∈ o.toList, e.ReadFrom T) (chained decl) := by
  refine (accept_reads _).branch ?_ (.pure nofun)
  refine peek_reads.bind fun t _ => ?_
  have hsome : Reads T (fun o => ∀ e ∈ o.toList, e.ReadFrom T) (do return some (← decl)) :=
    h.bind fun e he => .pure (by simpa using he)
  match t.lexeme with
  | .keyword .letWord | .keyword .fnWord => exact hsome
  | .keyword .inWord | .keyword .ifWord | .keyword .thenWord | .keyword .elseWord | .keyword .andWord
  | .keyword .endWord | .number _ | .string _ | .boolean _ | .name _ | .symbol _ | .endOfInput =>
    exact unexpected_reads _

theorem letRest_reads {decl : Parser Expr} (h : Reads T (Expr.ReadFrom T) decl) {p : Position} (hp : T p) :
    Reads T (Expr.ReadFrom T) (letRest inner decl p) := by
  refine (expectName_reads _).bind fun name _ => (expect_reads _ _).bind fun _ _ => hi.bind fun v hv => ?_
  have hrest : ∀ body : Expr, body.ReadFrom T →
      Reads T (Expr.ReadFrom T) (do return .binding p name v body (← chained decl)) := fun body hbody =>
    (chained_reads h).bind fun next hnext =>
      .pure (Expr.readFrom_of hp rfl (List.forall_mem_cons.mpr ⟨hv, List.forall_mem_cons.mpr ⟨hbody, hnext⟩⟩) nofun)
  have hnil : (Expr.nil v.position).ReadFrom T := Expr.readFrom_of hv.position rfl nofun nofun
  exact (accept_reads _).branch (hi.bind hrest) ((Reads.pure hnil).bind hrest)

theorem fnRest_reads {decl : Parser Expr} (h : Reads T (Expr.ReadFrom T) decl) {p : Position} (hp : T p) :
    Reads T (Expr.ReadFrom T) (fnRest inner decl p) := by
  refine optionalName_reads.bind fun name _ => parameters_read.bind fun params _ => ?_
  refine (expect_reads _ _).bind fun _ _ => hi.bind fun body hbody => ?_
  refine (chained_reads h).bind fun next hnext => (accept_reads _).bind fun _ _ => .pure ?_
  exact Expr.readFrom_of hp rfl hnext fun _ _ _ _ _ he => by cases he; exact hbody

theorem declaration_reads : ∀ fuel, Reads T (Expr.ReadFrom T) (declaration inner fuel)
  | 0 => unexpected_reads _
  | fuel + 1 => by
    refine peek_reads.bind fun t ht => ?_
    have hd := declaration_reads fuel
    match t.lexeme with
    | .keyword .letWord => exact advance_reads.bind fun _ _ => letRest_reads hi hd ht
    | .keyword .fnWord => exact advance_reads.bind fun _ _ => fnRest_reads hi hd ht
    | .keyword .inWord | .keyword .ifWord | .keyword .thenWord | .keyword .elseWord | .keyword .andWord
    | .keyword .endWord | .number _ | .string _ | .boolean _ | .name _ | .symbol _ | .endOfInput =>
      exact unexpected_reads _

theorem branchRest_reads {p : Position} (hp : T p) : Reads T (Expr.ReadFrom T) (branchRest inner p) := by
  refine hi.bind fun test ht => (expect_reads _ _).bind fun _ _ => ?_
  refine hi.bind fun yes hy => (expect_reads _ _).bind fun _ _ => hi.bind fun no hn => .pure ?_
  exact Expr.readFrom_of hp rfl (by simp [Expr.parts, ht, hy, hn]) nofun

theorem parenRest_reads {p : Position} (hp : T p) : Reads T (Expr.ReadFrom T) (parenRest inner p) := by
  refine (accept_reads _).branch (.pure (Expr.readFrom_of hp rfl nofun nofun)) ?_
  exact hi.bind fun e he => (expect_reads _ _).bind fun _ _ => .pure he

theorem listRest_reads {p : Position} (hp : T p) : Reads T (Expr.ReadFrom T) (listRest inner p) := by
  refine (itemsUntil_reads hi _).bind fun items hitems => (expect_reads _ _).bind fun _ _ => .pure ?_
  exact Expr.readFrom_of hp rfl hitems nofun

theorem atom_reads : Reads T (Expr.ReadFrom T) (atom inner) := by
  refine peek_reads.bind fun t ht => ?_
  dsimp only
  have hdecl : Reads T (Expr.ReadFrom T) (do declaration inner (← remaining)) :=
    remaining_reads.bind fun n _ => declaration_reads hi n
  have hthen : ∀ {x : Parser Expr}, Reads T (Expr.ReadFrom T) x → Reads T (Expr.ReadFrom T) (advance >>= fun _ => x) :=
    fun h => advance_reads.bind fun _ _ => h
  -- what is read from one token has no parts
  have hleaf : ∀ {e : Expr}, e.ReadFrom T → Reads T (Expr.ReadFrom T) (advance >>= fun _ => pure e) :=
    fun he => hthen (.pure he)
  match t.lexeme with
  | .keyword .letWord | .keyword .fnWord => exact hdecl
  | .keyword .ifWord => exact hthen (branchRest_reads hi ht)
  | .number x => exact hleaf (Expr.readFrom_of ht rfl nofun nofun)
  | .string s => exact hleaf (Expr.readFrom_of ht rfl nofun nofun)
  | .boolean b => exact hleaf (Expr.readFrom_of ht rfl nofun nofun)
  | .name n => exact hleaf (Expr.readFrom_of ht rfl nofun nofun)
  | .symbol s =>
    cases s with
    | openParen => exact hthen (parenRest_reads hi ht)
    | openBracket => exact hthen (listRest_reads hi ht)
    | _ => exact unexpected_reads _
  | .keyword .inWord | .keyword .thenWord | .keyword .elseWord | .keyword .andWord | .keyword .endWord
  | .endOfInput => exact unexpected_reads _

theorem application_reads : Reads T (Expr.ReadFrom T) (application inner) :=
  (atom_reads hi).bind fun _ hc => remaining_reads.bind fun n _ => calls_read hi n hc

theorem operand_reads : Reads T (Expr.ReadFrom T) (operand inner) :=
  remaining_reads.bind fun n _ => unary_reads (assignment_reads hi (application_reads hi)) n

theorem expression_reads : Reads T (Expr.ReadFrom T) (expression inner) := by
  have hpipe := climb_reads (operand_reads hi) levels levels_known
  exact hpipe.bind fun first hfirst => remaining_reads.bind fun n _ => sequenceTail_reads hpipe n hfirst

omit hi

/-! ## Programs -/

theorem sequence_reads : ∀ depth, Reads T (Expr.ReadFrom T) (sequence depth)
  | 0 => peek_reads.bind fun _ ht _ _ => .error ht
  | depth + 1 => expression_reads (sequence_reads depth)

theorem strayEnds_read : ∀ fuel, Reads T (fun _ => True) (strayEnds fuel)
  | 0 => .pure trivial
  | fuel + 1 => (accept_reads _).branch (strayEnds_read fuel) (.pure trivial)

theorem program_reads (depth : Nat) : Reads T (Expr.ReadFrom T) (program depth) := by
  refine (sequence_reads depth).bind fun e he => remaining_reads.bind fun n _ => ?_
  refine (strayEnds_read n).bind fun _ _ => ?_
  exact (sees_reads _).branch (.pure he) (unexpected_reads _)

end Parser

/-- All of a program that is read, and a failure to read one, stand where tokens of the source do. -/
theorem parseWithin_within (depth : Nat) (source : String) :
    match parseWithin depth source with
    | .ok program => program.Within ((Tokens.scan source).Occupied source.toList)
    | .error x => (Tokens.scan source).Occupied source.toList x.position := by
  have hstand := Tokens.scan_standIn source
  have htokens : (Tokens.scan source).Within ((Tokens.scan source).Occupied source.toList) :=
    ⟨fun _ => hstand.occupied_front, fun _ => hstand.occupied_ending, fun _ => hstand.occupied_refused⟩
  have hread := Parser.program_reads depth (Tokens.scan source) htokens
  unfold parseWithin
  generalize Parser.program depth (Tokens.scan source) = r at hread
  cases hread with
  | ok he _ => exact he.within
  | error hx => exact hx

/-- No program that is read has a form or an operator without meaning. -/
theorem parseWithin_known {depth : Nat} {source : String} {program : Expr}
    (h : parseWithin depth source = .ok program) : program.Known := by
  have hany : (Tokens.scan source).Within fun _ => True := ⟨fun _ _ => trivial, fun _ _ => trivial, fun _ _ => trivial⟩
  have hread := Parser.program_reads depth (Tokens.scan source) hany
  unfold parseWithin at h
  generalize Parser.program depth (Tokens.scan source) = r at hread h
  cases hread with
  | ok he _ =>
    cases h
    exact he.known
  | error => cases h

end Curried
