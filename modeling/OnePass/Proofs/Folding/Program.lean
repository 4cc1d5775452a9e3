import OnePass.Proofs.Folding.Lexical
import OnePass.Proofs.Likeness.Declaration
set_option autoImplicit false

/-!
# Letters of either case

The language does not tell capitals from small letters.  Sources that are the same in small letters
have alike tokens, so that recognising them ends alike (`parse_eq_up_to_case`): it binds the same
symbols and emits the same code, and names and diagnostics differ in the case of letters only.
-/

namespace OnePass

namespace Likeness

/-- Letters of either case are folded into one; the target is the same. -/
def ofCase (target : Target) : Likeness where
  fold := Ascii.toLower
  first := target
  second := target
  lower_eq := Bytes.lower_eq_of_lowerAscii_eq

variable {target : Target}

theorem sameToken_of_lowerAscii {t t' : Token} (ht : t.Lexed) (ht' : t'.Lexed)
    (h : t.lowerAscii = t'.lowerAscii) : (ofCase target).SameToken t t' := by
  simp only [Token.lowerAscii, Token.mk.injEq] at h
  obtain ⟨hkind, hliteral, hline, hcolumn⟩ := h
  refine ⟨hkind.symm, hline.symm, hcolumn.symm, hliteral, ?_⟩
  intro hinteger
  have hdigits := ht.digits hinteger
  have hdigits' := ht'.digits (hkind.symm.trans hinteger)
  calc t'.literal = t'.literal.lowerAscii := hdigits'.lowerAscii_eq.symm
    _ = t.literal.lowerAscii := hliteral.symm
    _ = t.literal := hdigits.lowerAscii_eq

theorem sameTokens_of_lowerAscii {ts ts' : List Token} (hts : ∀ t ∈ ts, t.Lexed)
    (hts' : ∀ t ∈ ts', t.Lexed) (h : ts.map Token.lowerAscii = ts'.map Token.lowerAscii) :
    List.Forall₂ (ofCase target).SameToken ts ts' := by
  induction ts generalizing ts' with
  | nil =>
    rw [List.map_nil, eq_comm, List.map_eq_nil_iff] at h
    rw [h]
    exact .nil
  | cons t ts ih =>
    cases ts' with
    | nil => cases h
    | cons t' ts' =>
      rw [List.map_cons, List.map_cons, List.cons.injEq] at h
      rw [List.forall_mem_cons] at hts hts'
      exact .cons (sameToken_of_lowerAscii hts.1 hts'.1 h.1) (ih hts.2 hts'.2 h.2)

theorem sameCursor_of_lowerAscii {source source' : Bytes}
    (h : source.lowerAscii = source'.lowerAscii) :
    (ofCase target).SameCursor (.ofStream (.ofSource source)) (.ofStream (.ofSource source')) := by
  have hstream := congrArg TokenStream.ofSource h
  rw [TokenStream.ofSource_lowerAscii, TokenStream.ofSource_lowerAscii] at hstream
  constructor
  · exact sameTokens_of_lowerAscii (fun _ => TokenStream.lexed_of_mem)
      (fun _ => TokenStream.lexed_of_mem) (congrArg TokenStream.tokens hstream)
  · exact sameToken_of_lowerAscii TokenStream.lexed_eof TokenStream.lexed_eof
      (congrArg TokenStream.eof hstream)

end Likeness

/-! ## Outcomes up to the case of letters -/

/-- Whether two diagnostics differ at most in the case of the letters of their texts. -/
structure Diagnostic.EqUpToCase (d d' : Diagnostic) : Prop where
  code : d'.code = d.code
  category : d'.category = d.category
  level : d'.level = d.level
  position : d'.position = d.position
  message : d'.message.lowerAscii = d.message.lowerAscii
  lexeme : d'.lexeme.lowerAscii = d.lexeme.lowerAscii

namespace Program

/-- Whether two results are the same program, but for the case of the letters of its name, or errors
of the same family and code. -/
inductive ResultEqUpToCase : Except Error Program → Except Error Program → Prop where
  | ok {name name' : Bytes} {lines : List Bytes} (same : name'.lowerAscii = name.lowerAscii) :
    ResultEqUpToCase (.ok ⟨name, lines⟩) (.ok ⟨name', lines⟩)
  | error {e e' : Error} (category : e'.failure.category = e.failure.category)
      (code : e'.failure.code = e.failure.code) :
    ResultEqUpToCase (.error e) (.error e')

/-- Whether two outcomes agree: in the symbols that are bound, in the code that is held, and but for
the case of letters in the diagnostics and the result. -/
structure Outcome.EqUpToCase (o o' : Outcome) : Prop where
  result : ResultEqUpToCase o.result o'.result
  table : o'.state.table = o.state.table
  builder : o'.state.builder = o.state.builder
  diagnostics : List.Forall₂ Diagnostic.EqUpToCase o.state.diagnostics o'.state.diagnostics

variable {target : Target}

theorem resultEqUpToCase_of_sameResult {builder : Ir.Builder} {r r' : Except Error Program}
    (h : SameResult (.ofCase target) builder r r') : ResultEqUpToCase r r' := by
  cases h with
  | ok _ hname => exact .ok hname.symm
  | unexpectedEnd => exact .error rfl rfl
  | malformed _ => exact .error rfl rfl
  | unfinished e => exact .error rfl rfl

theorem eqUpToCase_of_sameDiagnostic {d d' : Diagnostic}
    (h : (Likeness.ofCase target).SameDiagnostic d d') : d.EqUpToCase d' :=
  ⟨h.code, h.category, h.level, h.position, h.message.symm, h.lexeme.symm⟩

/-- Sources that differ in the case of letters only have outcomes that agree, over every symbol table
and whatever has been emitted before. -/
theorem parse_eq_up_to_case (file : Bytes) {source source' : Bytes} (table : Table)
    (builder : Ir.Builder) (h : source.lowerAscii = source'.lowerAscii) :
    (parse file source table builder).EqUpToCase (parse file source' table builder) := by
  have hstart : (Likeness.ofCase builder.target).SameState (.start file source table builder)
      (.start file source' table builder) :=
    ⟨rfl, Likeness.sameCursor_of_lowerAscii h, rfl, ⟨rfl, rfl⟩, .nil, rfl⟩
  obtain ⟨hstate, hresult⟩ := sameResult_parse hstart
  obtain ⟨hfirst, hsecond⟩ := hstate.builder
  refine ⟨resultEqUpToCase_of_sameResult hresult, hstate.table, ?_, ?_⟩
  · rw [hsecond]
    exact congrArg (fun target => { (parse file source table builder).state.builder with target })
      hfirst.symm
  · exact hstate.diagnostics.imp fun _ _ => eqUpToCase_of_sameDiagnostic

/-- Two spellings of one program, with a name that is not bound and a semicolon that is missing. -/
theorem parse_eq_up_to_case_mixed :
    (text "Program Foo IS Integer Bar; Begin BAR := QUX; return end pRogram .").lowerAscii =
        (text "PROGRAM foo is INTEGER BAR; BEGIN bar := Qux; RETURN End Program .").lowerAscii ∧
      (parse (text "a.src")
          (text "Program Foo IS Integer Bar; Begin BAR := QUX; return end pRogram .")
          .empty (.new .standard)).EqUpToCase
        (parse (text "a.src")
          (text "PROGRAM foo is INTEGER BAR; BEGIN bar := Qux; RETURN End Program .")
          .empty (.new .standard)) :=
  ⟨by decide, parse_eq_up_to_case (text "a.src") .empty (.new .standard) (by decide)⟩

end Program

end OnePass
