import OnePass.Proofs.Acceptance.Program
import OnePass.Proofs.Translation.Basic
set_option autoImplicit false

/-!
# Code is emitted as trees are translated

A program whose keys are all different and whose variables have valid bounds is emitted as its tree
is translated (`parse_eq_translation`), although it is emitted in one pass: a procedure is left for
those inside of it and returned to, and global variables are found in between.
-/

namespace OnePass.Tree

/-! ## Keys -/

/-- A name is none of the words of the built-in procedures. -/
theorem Name.lower_ne_word (n : Name) (b : Builtin) : n.lower ≠ b.word := by
  intro h
  have hlookup : ∀ b ∈ Builtin.all,
      TokenKind.reservedWords.lookup b.word = some (.builtin b) := by decide
  have hname : TokenKind.ofWord n.literal = .identifier := n.isName.2.2
  have hlower : n.literal.lower = b.word := h
  rw [TokenKind.ofWord, hlower, hlookup b (Builtin.mem_all b)] at hname
  cases hname

theorem Name.period_notMem (n : Name) : Ascii.period ∉ n.lower := n.isName.period_notMem_lower

/-- Every key of a declaration is the key of a name in some scope. -/
theorem exists_of_mem_keys {root key : ScopeKey} {ds : Declarations} {scope : ScopeKey}
    (h : key ∈ ds.keys root scope) : ∃ (outer : ScopeKey) (n : Name), key = outer.child n.lower := by
  induction ds generalizing scope with
  | nil => cases h
  | variableDecl v ds ih =>
    rcases List.mem_cons.mp h with rfl | h
    · exact ⟨_, v.name, rfl⟩
    · exact ih h
  | procedureDecl head inner body ds ihInner ihRest =>
    simp only [Declarations.keys, Heading.keys, List.mem_append, List.mem_cons, List.mem_map] at h
    rcases h with ((rfl | ⟨f, -, rfl⟩) | h) | h
    · exact ⟨_, head.name, rfl⟩
    · exact ⟨_, f.name, rfl⟩
    · exact ihInner h
    · exact ihRest h

/-- Nothing that a program declares is bound at its beginning. -/
theorem notMem_start {t : Tree} {key : ScopeKey} (h : key ∈ t.keys) : key ∉ t.start := by
  obtain ⟨outer, n, rfl⟩ := exists_of_mem_keys h
  unfold Tree.start
  rw [Std.ExtTreeMap.mem_insert, Std.compare_eq_iff_eq, Table.mem_bindBuiltins]
  rintro (hroot | hempty | ⟨b, hb⟩)
  · exact ScopeKey.ne_child t.name.period_notMem outer n.lower hroot
  · exact Std.ExtTreeMap.not_mem_empty hempty
  · have hword : ∀ b ∈ Builtin.all, Ascii.period ∉ b.word := by decide
    have hperiod := hword b (Builtin.mem_all b)
    exact n.lower_ne_word b (ScopeKey.child_inj n.period_notMem hperiod hb).2

/-! ## What declarations add -/

/-- The lines of a finished function. -/
def unitLines (f : Ir.Function) : List Ir.Line := f.lines ++ [.blank]

/-- What was added between two states of the bindings and the code: lines of global variables, lines
of finished procedures and lines of the current function, and keys. -/
structure Added (e e' : Env) (globals units locals : List Ir.Line) (keys : List ScopeKey) :
    Prop where
  globals : e'.builder.globals = e.builder.globals ++ globals
  units : e'.builder.finished.flatMap unitLines = e.builder.finished.flatMap unitLines ++ units
  current : e'.builder.current =
    { e.builder.current with body := e.builder.current.body ++ locals }
  parked : e'.builder.parked = e.builder.parked
  bindings : ∀ key, key ∈ e'.bindings ↔ key ∈ e.bindings ∨ key ∈ keys

section Added

variable {e e' e'' : Env} {gs gs' us us' ls ls' : List Ir.Line} {ks ks' : List ScopeKey}

theorem Added.refl (e : Env) : Added e e [] [] [] [] := by
  constructor <;> simp

theorem Added.trans (h : Added e e' gs us ls ks) (h' : Added e' e'' gs' us' ls' ks') :
    Added e e'' (gs ++ gs') (us ++ us') (ls ++ ls') (ks ++ ks') where
  globals := by rw [h'.globals, h.globals, List.append_assoc]
  units := by rw [h'.units, h.units, List.append_assoc]
  current := by rw [h'.current, h.current, List.append_assoc]
  parked := h'.parked.trans h.parked
  bindings key := by rw [h'.bindings, h.bindings, List.mem_append, or_assoc]

end Added

/-- A line for a variable that is bound. -/
theorem added_line (e : Env) (key : ScopeKey) (sym : Symbol) (global : Bool) (line : Ir.Line) :
    Added e
      { bindings := e.bindings.insert key sym
        builder := if global then e.builder.addGlobal line else e.builder.addLocal line }
      (if global then [line] else []) [] (if global then [] else [line]) [key] := by
  have hbindings (k : ScopeKey) :
      k ∈ e.bindings.insert key sym ↔ k ∈ e.bindings ∨ k ∈ [key] := by
    rw [Std.ExtTreeMap.mem_insert, Std.compare_eq_iff_eq, List.mem_singleton, eq_comm, or_comm]
  cases global with
  | true => exact ⟨rfl, by simp [Ir.Builder.addGlobal], by simp [Ir.Builder.addGlobal], rfl, hbindings⟩
  | false => exact ⟨by simp [Ir.Builder.addLocal], by simp [Ir.Builder.addLocal], rfl, rfl, hbindings⟩

/-- A variable whose key is not bound adds its line. -/
theorem Variable.elaborate_added {v : Variable} {key : ScopeKey} {e : Env} (hv : v.extent.Valid)
    (hkey : key ∉ e.bindings) :
    Added e (v.elaborate key e) (if v.global then [v.line key] else []) []
      (if v.global then [] else [v.line key]) [key] := by
  rw [Variable.elaborate, Variable.declaration_eq hv key]
  dsimp only
  rw [if_neg hkey]
  exact added_line e key v.symbol v.global (v.line key)

theorem mem_bindFormals {h : Heading} {key k : ScopeKey} {m : Bindings} :
    k ∈ h.bindFormals key m ↔
      k ∈ m ∨ k ∈ h.formals.map (fun f => key.child f.name.lower) := by
  have hstep (m : Bindings) (f : Formal) :
      k ∈ bindFormal key h.name.line m f ↔ k ∈ m ∨ k = key.child f.name.lower := by
    unfold bindFormal
    split
    · next hbound =>
      constructor
      · exact .inl
      · rintro (hk | rfl)
        · exact hk
        · exact hbound
    · rw [Std.ExtTreeMap.mem_insert, Std.compare_eq_iff_eq, eq_comm, or_comm]
  unfold Heading.bindFormals
  generalize h.formals = fs
  induction fs generalizing m with
  | nil => simp
  | cons f fs ih => simp only [List.foldl_cons, ih, hstep, List.map_cons, List.mem_cons, or_assoc]

theorem Heading.mem_enter {h : Heading} {key k : ScopeKey} {e : Env} :
    k ∈ (h.enter key e).bindings ↔ k ∈ e.bindings ∨ k ∈ h.keys key := by
  have hbindings : k ∈ (h.enter key e).bindings ↔ k ∈ h.bindFormals key e.bindings ∨ k = key := by
    unfold Heading.enter
    dsimp only
    split
    · next hbound =>
      refine ⟨.inl, fun hk => hk.elim id ?_⟩
      rintro rfl
      exact hbound
    · rw [Std.ExtTreeMap.mem_insert, Std.compare_eq_iff_eq, eq_comm, or_comm]
  rw [hbindings, mem_bindFormals, Heading.keys, List.mem_cons, or_assoc, or_comm (b := k = key)]

/-- The lines of a procedure, unless its key is bound. -/
def Heading.ownUnit (h : Heading) (key : ScopeKey) (m : Bindings) (locals : List Ir.Line) :
    List Ir.Line :=
  if key ∈ h.bindFormals key m then [] else h.unit key locals

/-- A procedure adds what is inside of it, and then its own lines. -/
theorem Heading.exit_added (h : Heading) (key : ScopeKey) (e : Env) {inside : Env}
    {gs us ls : List Ir.Line} {ks : List ScopeKey}
    (hinside : Added (h.enter key e) inside gs us ls ks) :
    Added e (h.exit key e inside) gs (us ++ h.ownUnit key e.bindings ls) [] (h.keys key ++ ks) := by
  have hleave := leave_of_parked hinside.parked (decide (key ∉ h.bindFormals key e.bindings))
  rw [Heading.exit, hleave]
  constructor
  · exact hinside.globals
  · have hcurrent := hinside.current
    simp only [Heading.enter, ofProcedure_eq] at hcurrent
    have hunits := hinside.units
    by_cases hkey : key ∈ h.bindFormals key e.bindings
    · simp only [hkey, not_true_eq_false, decide_false, Bool.false_eq_true, if_false, if_true, hunits,
        Heading.ownUnit, List.append_nil]
      rfl
    · simp only [decide_true, hkey, not_false_eq_true, if_true, if_false, List.flatMap_append, hunits,
        List.flatMap_singleton, hcurrent, unitLines, Heading.ownUnit, Heading.unit, Ir.Function.push,
        Ir.Function.lines, List.append_assoc, List.cons_append, List.nil_append]
      rfl
  · simp
  · rfl
  · intro k
    rw [hinside.bindings, Heading.mem_enter, List.mem_append, or_assoc]

/-- Declarations whose keys are different, and not bound, add the lines that they are translated
to. -/
theorem elaborate_added {root scope : ScopeKey} {ds : Declarations} {e : Env} (hvalid : ds.Valid)
    (hnodup : (ds.keys root scope).Nodup) (hfresh : ∀ key ∈ ds.keys root scope, key ∉ e.bindings) :
    Added e (ds.elaborate root scope e) (ds.globals root scope) (ds.units root scope)
      (ds.locals root scope) (ds.keys root scope) := by
  induction ds generalizing scope e with
  | nil => exact .refl e
  | variableDecl v ds ih =>
    obtain ⟨hv, hds⟩ := hvalid
    obtain ⟨hnew, hnodup⟩ := List.nodup_cons.mp hnodup
    obtain ⟨hkey, hfresh⟩ := List.forall_mem_cons.mp hfresh
    have hadded := Variable.elaborate_added hv hkey
    refine hadded.trans (ih hds hnodup fun key hmem => ?_)
    rw [hadded.bindings, List.mem_singleton]
    rintro (hbound | rfl)
    · exact hfresh key hmem hbound
    · exact hnew hmem
  | procedureDecl h inner body ds ihInner ihRest =>
    obtain ⟨hinner, hds⟩ := hvalid
    -- the keys of the procedure, of what is inside of it, and of what follows
    obtain ⟨hfront, hnodupRest, hapart⟩ := List.nodup_append.mp hnodup
    obtain ⟨hown, hnodupInner, hinside⟩ := List.nodup_append.mp hfront
    have hkey : h.key root scope ∉ h.bindFormals (h.key root scope) e.bindings := by
      rw [mem_bindFormals]
      rintro (hbound | hformal)
      · exact hfresh _ (List.mem_append_left _ (List.mem_append_left _ List.mem_cons_self)) hbound
      · exact (List.nodup_cons.mp hown).1 hformal
    have hadded := h.exit_added (h.key root scope) e (ihInner hinner hnodupInner fun key hmem => ?_)
    · rw [Heading.ownUnit, if_neg hkey] at hadded
      refine hadded.trans (ihRest hds hnodupRest fun key hmem => ?_)
      rw [hadded.bindings]
      rintro (hbound | hmem')
      · exact hfresh key (List.mem_append_right _ hmem) hbound
      · exact hapart key hmem' key hmem rfl
    · rw [Heading.mem_enter]
      rintro (hbound | hmem')
      · exact hfresh key (List.mem_append_left _ (List.mem_append_right _ hmem)) hbound
      · exact hinside key hmem' key hmem rfl

/-- The code of a program, from what was added for it. -/
theorem Added.emitted {m : Bindings} {target : Target} {e : Env} {gs us ls : List Ir.Line}
    {ks : List ScopeKey} (h : Added ⟨m, (Ir.Builder.new target).openProgram⟩ e gs us ls ks) :
    Program.emitted e.builder =
      gs ++ [.blank] ++ us ++ .main :: (ls ++ [.blank, .returnZero, .close]) := by
  have hunits := h.units
  unfold unitLines at hunits
  unfold Program.emitted
  rw [h.globals, hunits, h.current]
  simp [Ir.Builder.new, Ir.Builder.openProgram, Ir.Function.start, Ir.Function.lines]

theorem emitted_elaborate {t : Tree} (hkeys : t.keys.Nodup) (hvalid : t.declarations.Valid)
    (target : Target) :
    Program.emitted (t.elaborate (.new target)).builder = t.translation :=
  Added.emitted (elaborate_added hvalid hkeys fun _ => notMem_start)

end OnePass.Tree

namespace OnePass.Program

open OnePass.Tree

/-- Recognising the tokens of a tree gives the code that the tree is translated to, provided that its
keys are all different and the bounds of its variables are valid. -/
theorem parse_eq_translation (tree : Tree) (file source : Bytes) (target : Target)
    (htokens : Shows tree.slots (TokenStream.ofSource source).tokens [])
    (hkeys : tree.keys.Nodup) (hvalid : tree.declarations.Valid) :
    (parse file source .empty (.new target)).result =
      .ok ⟨tree.name.literal, tree.translation.map (Ir.Line.render target.pointers)⟩ := by
  rw [parse_tree tree file source target htokens, emitted_elaborate hkeys hvalid]

/-- A program with a procedure inside a procedure.  The outer procedure has variables in front of the
inner one and behind it, one of them global. -/
def nestedSource : Bytes :=
  text "program Outer is global integer Total; float rate[-3:4];
    procedure p(integer a in, float b[2] out) is char c;
      procedure q() begin end procedure; global string s; bool d[05];
    begin c := 'x'; end procedure;
    begin total := 1; end program."

/-- An assignment of a literal. -/
def nestedStatement (l : Literal) : Statements :=
  ⟨1, _, .cons (.assignment (.mk .none (.ofFactor (.literal l)))) .nil⟩

/-- The tree of the program. -/
def nestedTree : Tree where
  name := ⟨text "Outer", 1, by decide⟩
  declarations :=
    .variableDecl ⟨true, .integer, ⟨text "Total", 1, by decide⟩, .single⟩ <|
    .variableDecl ⟨false, .float, ⟨text "rate", 1, by decide⟩,
      .between ⟨true, text "3", by decide⟩ ⟨false, text "4", by decide⟩⟩ <|
    .procedureDecl
      { global := false
        name := ⟨text "p", 2, by decide⟩
        formals := [⟨.integer, ⟨text "a", 2, by decide⟩, .single, .input⟩,
          ⟨.float, ⟨text "b", 2, by decide⟩, .upTo ⟨false, text "2", by decide⟩, .output⟩]
        hasIs := true }
      (.variableDecl ⟨false, .char, ⟨text "c", 2, by decide⟩, .single⟩ <|
        .procedureDecl ⟨false, ⟨text "q", 3, by decide⟩, [], false⟩ .nil ⟨0, [], .nil⟩ <|
        .variableDecl ⟨true, .string, ⟨text "s", 3, by decide⟩, .single⟩ <|
        .variableDecl ⟨false, .bool, ⟨text "d", 3, by decide⟩,
          .upTo ⟨false, text "05", by decide⟩⟩ .nil)
      (nestedStatement .char) .nil
  statements := nestedStatement .integer

/-- The code of the program: the inner procedure comes first, and the variables stand where they
belong. -/
theorem nestedSource_translation :
    Shows nestedTree.slots (TokenStream.ofSource nestedSource).tokens [] ∧
      nestedTree.keys.Nodup ∧ nestedTree.declarations.Valid ∧
      nestedTree.translation.map (Ir.Line.render Target.standard.pointers) =
        [text "@outer_total = common global i32 0, align 4",
          text "@outer_s = common global i8* null, align 8", [],
          text "define void @outer_p_q() \x7b", text "ret void", text "\x7d", [],
          text "define void @outer_p(i32 %a, float* %b) \x7b",
          text "%1 = alloca i32, align 4", text "store i32 %a, i32* %1",
          text "%2 = alloca float*, align 8", text "store float* %b, float** %2",
          text "%outer_p_c = alloca i8, align 1",
          text "%outer_p_d = alloca [5 x i32], align 16", text "ret void", text "\x7d", [],
          text "define i32 @main() \x7b", text "%outer_rate = alloca [7 x float], align 16", [],
          text "ret i32 0", text "\x7d"] ∧
      (parse [] nestedSource .empty (.new .standard)).result = .ok ⟨text "Outer",
        nestedTree.translation.map (Ir.Line.render Target.standard.pointers)⟩ := by
  have htokens : Shows nestedTree.slots (TokenStream.ofSource nestedSource).tokens [] := by
    decide +kernel
  have hkeys : nestedTree.keys.Nodup := by decide +kernel
  have hvalid : nestedTree.declarations.Valid := by decide +kernel
  refine ⟨htokens, hkeys, hvalid, by decide +kernel, ?_⟩
  exact parse_eq_translation nestedTree [] nestedSource .standard htokens hkeys hvalid

end OnePass.Program
