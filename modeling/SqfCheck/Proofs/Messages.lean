import SqfCheck.Proofs.Arities
import SqfCheck.Proofs.LongestMatch
import SqfCheck.Proofs.Positions
import SqfCheck.Proofs.Provenance

/-!
# Messages and newlines

Messages are put together from fixed words and from texts of the script. Of all tokens only string
literals and what is invalid can hold a newline (`TokenKind.Matches.not_mem_newline`), and what is
invalid is quoted only if it is a single character. So a message holds a newline just if it quotes a
string literal that does, or the directory in which a file was looked for
(`Diagnostic.QuotesLines`). Three messages can : the one about a literal that stands where something
else should, the one about the name of a parameter, and the one about a missing file.

Each stage of a run has its own messages. Reading blames tokens of the script in words of the
grammar (`asksIn_of_read`). The walk over the tree names commands, which are no literals since the
grammar reads none as a command (`Expr.Built.kind_op`), and the tree is drawn from the tokens. The
last stage names variables.
-/

namespace SqfCheck

open Text
open scoped Computability

/-! ## Texts on one line -/

/-- The text holds no newline. -/
def OneLine (s : String) : Prop :=
  '\n' ∉ s.toList

instance : DecidablePred OneLine :=
  fun s => inferInstanceAs (Decidable ('\n' ∉ s.toList))

@[simp]
theorem oneLine_append (s t : String) : OneLine (s ++ t) ↔ OneLine s ∧ OneLine t := by
  rw [OneLine, String.toList_append, List.mem_append, not_or]
  rfl

theorem oneLine_repr (n : Nat) : OneLine n.repr := by
  intro hn
  rw [Nat.toList_repr] at hn
  have hdigit := Nat.isDigit_of_mem_toDigits (by decide) (by decide) hn
  cases hdigit

theorem Text.not_mem_intercalate {c : Char} {sep : List Char} (hsep : c ∉ sep) :
    ∀ {texts : List (List Char)}, (∀ text ∈ texts, c ∉ text) → c ∉ sep.intercalate texts
  | [], _ => by simp
  | [text], h => by simpa using h
  | text :: next :: texts, h => by
    obtain ⟨htext, hlater⟩ := List.forall_mem_cons.1 h
    have hrest := not_mem_intercalate hsep hlater
    rw [List.intercalate_cons_cons]
    simp [htext, hsep, hrest]

theorem OperandType.oneLine_name (t : OperandType) : OneLine t.name := by
  cases t <;> decide

theorem TypeSet.oneLine_describe (types : TypeSet) : OneLine types.describe := by
  rw [OneLine, describe, String.toList_intercalate, List.map_map]
  refine not_mem_intercalate (by decide) fun text htext => ?_
  obtain ⟨t, -, rfl⟩ := List.mem_map.1 htext
  exact t.oneLine_name

/-! ## Languages of lines -/

namespace Spelling

/-- Texts without a newline. -/
def lines : Language Char :=
  (one (· ≠ '\n'))∗

theorem mem_lines {w : List Char} : w ∈ lines ↔ '\n' ∉ w := by
  rw [lines, mem_star_one]
  simp only [decide_eq_true_eq]
  exact ⟨fun h hw => h _ hw rfl, fun h c hc hn => h (hn ▸ hc)⟩

theorem one_le_lines {p : Char → Bool} (hp : p '\n' = false) : one p ≤ lines := by
  rintro w ⟨c, rfl, hc⟩
  refine mem_lines.2 fun hn => ?_
  obtain rfl := List.mem_singleton.1 hn
  rw [hp] at hc
  cases hc

theorem singleton_le_lines {c : Char} (hc : '\n' ≠ c) : ({[c]} : Language Char) ≤ lines := by
  rw [singleton_eq]
  exact one_le_lines (beq_eq_false_iff_ne.2 hc)

variable {K L : Language Char}

theorem mul_le_lines (hK : K ≤ lines) (hL : L ≤ lines) : K * L ≤ lines :=
  (mul_le_mul' hK hL).trans (kstar_mul_kstar _).le

theorem star_le_lines (hL : L ≤ lines) : L∗ ≤ lines :=
  (kstar_mono hL).trans (kstar_idem _).le

theorem names_le_lines : names ≤ lines := by
  rw [names, letter_add_digit_eq, letter_eq]
  exact mul_le_lines (one_le_lines (by decide)) (star_le_lines (one_le_lines (by decide)))

theorem numbers_le_lines : numbers ≤ lines := by
  have hdigit : digit ≤ lines := by
    rw [digit_eq]
    exact one_le_lines (by decide)
  have hhex : hexDigit ≤ lines := by
    rw [hexDigit_eq]
    exact one_le_lines (by decide)
  have hsign : ∀ {c : Char}, '\n' ≠ c → ({[c]} : Language Char) ≤ lines := singleton_le_lines
  have hdigits : digit * digit∗ ≤ lines := mul_le_lines hdigit (star_le_lines hdigit)
  have hfraction : fraction ≤ lines := mul_le_lines (hsign (by decide)) hdigits
  have hexponent : exponent ≤ lines := by
    refine mul_le_lines (mul_le_lines ?_ ?_) hdigits
    · exact add_le (hsign (by decide)) (hsign (by decide))
    · exact add_le (add_le one_le_kstar (hsign (by decide))) (hsign (by decide))
  have hhexadecimals : hexadecimals ≤ lines := by
    refine add_le (mul_le_lines (mul_le_lines (hsign (by decide)) ?_) (star_le_lines hhex)) ?_
    · exact add_le (hsign (by decide)) (hsign (by decide))
    · exact mul_le_lines (hsign (by decide)) (mul_le_lines hhex (star_le_lines hhex))
  refine add_le hhexadecimals (mul_le_lines (add_le ?_ hfraction) (add_le one_le_kstar hexponent))
  exact mul_le_lines hdigits (add_le one_le_kstar hfraction)

theorem symbols_le_lines : symbols ≤ lines := by
  have hall : (symbolTexts.map String.toList).all ('\n' ∉ ·) = true := by decide +kernel
  exact fun w hw => mem_lines.2 (of_decide_eq_true (List.all_eq_true.1 hall w hw))

end Spelling

/-! ## Tokens -/

/-- Of all tokens, only a string literal and what is invalid can hold a newline. -/
theorem TokenKind.Matches.not_mem_newline {kind : TokenKind} {text cs : List Char}
    (h : kind.Matches text cs) (hstring : kind ≠ .string) (hinvalid : kind ≠ .invalid) :
    '\n' ∉ text := by
  cases kind with
  | identifier => exact Spelling.mem_lines.1 (Spelling.names_le_lines h.mem)
  | number => exact Spelling.mem_lines.1 (Spelling.numbers_le_lines h.mem)
  | string => exact absurd rfl hstring
  | invalid => exact absurd rfl hinvalid
  | endOfInput => exact h.elim
  | _ => exact Spelling.mem_lines.1 (Spelling.symbols_le_lines h.mem)

namespace Token

variable {source : String} {t : Token} {expected : String}

theorem matches_of_mem_scan (ht : t ∈ scan source) :
    (∃ cs, t.kind.Matches t.text.toList cs) ∨ t.kind = .endOfInput ∧ t.text = "" := by
  refine (exists_lexeme_of_mem_scan ht).imp_left ?_
  rintro ⟨l, hl, hcls, htext⟩
  obtain ⟨before, after, hall⟩ := List.append_of_mem hl
  obtain ⟨c, ds, -, rfl, -⟩ := Lexeme.exists_of_all_eq hall
  rw [htext, String.toList_ofList]
  exact ⟨c :: ds, Lexeme.matches_first hcls⟩

theorem oneLine_text (ht : t ∈ scan source) (hstring : t.kind ≠ .string)
    (hinvalid : t.kind ≠ .invalid) : OneLine t.text := by
  rcases matches_of_mem_scan ht with ⟨cs, h⟩ | ⟨-, htext⟩
  · exact h.not_mem_newline hstring hinvalid
  · rw [htext]
    decide

/-- What is invalid is only quoted if it is a single character, which is no blank. -/
theorem oneLine_invalidReason (ht : t ∈ scan source) (hk : t.kind = .invalid) :
    OneLine t.invalidReason := by
  obtain ⟨cs, h⟩ := (matches_of_mem_scan ht).resolve_right (by simp [hk])
  rw [hk] at h
  unfold invalidReason
  obtain ⟨htext, hunclosed⟩ | ⟨c, htext, hprefix, hnothing⟩ := h
  · rw [htext]
    cases hunclosed with
    | string hopen =>
      obtain ⟨quote, hquote, hhead⟩ := hopen
      obtain ⟨rest, rfl⟩ := List.head?_eq_some_iff.1 hhead
      rcases hquote with rfl | rfl
      · exact (by decide : OneLine "unterminated string literal")
      · exact (by decide : OneLine "unterminated string literal")
    | comment hopen =>
      obtain ⟨rest, rfl⟩ := hopen
      exact (by decide : OneLine "unterminated block comment")
  · obtain ⟨rest, rfl⟩ := hprefix
    have hc : '\n' ≠ c := by
      rintro rfl
      cases hnothing.blank _ rfl
    split
    · decide
    · decide
    · decide
    · have hquoted : OneLine t.text := by simp [OneLine, htext, hc]
      simp +decide [hquoted]

/-- A failure at a token that is no string literal is reported on one line. -/
theorem oneLine_unexpected (ht : t ∈ scan source) (hexpected : OneLine expected)
    (hline : t.kind = .string → OneLine t.text) : OneLine (t.unexpected expected).message := by
  dsimp only [unexpected, Diagnostic.ofSyntax, Diagnostic.error]
  split
  · next hk => exact oneLine_invalidReason ht hk
  · simp +decide [hexpected]
  · next hinvalid hend =>
    have htext : OneLine t.text := by
      by_cases hk : t.kind = .string
      · exact hline hk
      · exact oneLine_text ht hk hinvalid
    simp +decide [htext, hexpected]

end Token

/-! ## What is quoted -/

/-- The message of the finding quotes a string literal of the tokens that holds a newline. It says
that the literal is unexpected, that it names no parameter, or that there is no file of its name
under `root`, which it quotes too. -/
inductive Diagnostic.QuotesLines (root : Path) (tokens : List Token) : Diagnostic → Prop where
  | literal {t : Token} (ht : t ∈ tokens) (hk : t.kind = .string) (hline : ¬OneLine t.text)
    (expected : String) : QuotesLines root tokens (t.unexpected expected)
  | parameter {t : Token} {name : String} (ht : t ∈ tokens) (hvalue : t.stringValue = some name)
    (hline : ¬OneLine name) : QuotesLines root tokens (.error .typeMismatch t.span
      ("Parameter '" ++ name ++ "' must be a local variable name starting with '_'"))
  | file {t : Token} {written : String} (ht : t ∈ tokens) (hvalue : t.stringValue = some written)
    (hline : ¬OneLine written ∨ ¬OneLine root.text) (span : Span) :
    QuotesLines root tokens (.error .missingFile span
      ("File '" ++ written ++ "' not found under " ++ root.text))

variable {root : Path} {tokens : List Token}

theorem Diagnostic.QuotesLines.not_oneLine {d : Diagnostic} (h : d.QuotesLines root tokens) :
    ¬OneLine d.message := by
  cases h with
  | @literal t ht hk hline expected =>
    have hmessage : (t.unexpected expected).message =
        "unexpected '" ++ t.text ++ "', expected " ++ expected := by
      rw [Token.unexpected, hk]
      rfl
    simp [hmessage, hline]
  | parameter ht hvalue hline => simp [error, hline]
  | file ht hvalue hline => rcases hline with hline | hline <;> simp [error, hline]

/-- What the entry says, if it says something, is on one line or quotes lines. -/
def Entry.LinesQuoted (root : Path) (tokens : List Token) : Entry → Prop
  | diagnostic d => OneLine d.message ∨ d.QuotesLines root tokens
  | _ => True

/-! ## Applications -/

namespace Operator

open Entry

variable {op : Token} {a : Application}

theorem linesQuoted_typeMismatch {span : Span} {message : String} (h : OneLine message) :
    ∀ e ∈ [typeMismatch span message], e.LinesQuoted root tokens :=
  List.forall_mem_singleton.2 (.inl h)

theorem linesQuoted_checkSide {types : TypeSet} {side : String} {o : Option Operand}
    (hside : OneLine side) (hop : OneLine op.text) :
    ∀ e ∈ checkSide types side op o, e.LinesQuoted root tokens := by
  cases o with
  | none => simp [checkSide]
  | some o =>
    rw [checkSide]
    split_ifs
    · simp
    · refine linesQuoted_typeMismatch ?_
      unfold sideMessage
      simp +decide [hside, hop, o.type.oneLine_name, types.oneLine_describe]

section

variable (hop : OneLine a.op.text)
include hop

theorem linesQuoted_checkTypes {o : Operator} :
    ∀ e ∈ o.checkTypes a, e.LinesQuoted root tokens :=
  List.forall_mem_append.2 ⟨linesQuoted_checkSide (by decide) hop,
    linesQuoted_checkSide (by decide) hop⟩

theorem linesQuoted_checkCondition :
    ∀ e ∈ checkCondition a, e.LinesQuoted root tokens := by
  unfold checkCondition
  split
  · simp
  next o ho =>
  split_ifs
  · simp
  · refine linesQuoted_typeMismatch ?_
    unfold conditionMessage
    simp +decide [hop, o.type.oneLine_name]

theorem linesQuoted_checkFollows :
    ∀ e ∈ checkFollows a, e.LinesQuoted root tokens := by
  unfold checkFollows
  split
  · simp
  next o ho =>
  split_ifs
  · simp
  · refine linesQuoted_typeMismatch ?_
    unfold followsMessage
    simp +decide [hop, o.type.oneLine_name]

theorem linesQuoted_checkBranch {branch : Expr} :
    ∀ e ∈ checkBranch a.op branch, e.LinesQuoted root tokens := by
  unfold checkBranch
  split_ifs
  · simp
  · refine linesQuoted_typeMismatch ?_
    unfold branchMessage
    simp +decide [hop, branch.literalType.oneLine_name]

theorem linesQuoted_checkBranches {body : Operand} :
    ∀ e ∈ checkBranches a.op body, e.LinesQuoted root tokens := by
  unfold checkBranches
  split
  · simp
  next branches hbranches =>
  split_ifs
  · refine linesQuoted_typeMismatch ?_
    unfold branchesMessage
    simp +decide [hop, oneLine_repr]
  · intro e he
    obtain ⟨branch, -, he⟩ := List.mem_flatMap.1 he
    exact linesQuoted_checkBranch hop e he

theorem linesQuoted_checkThen : ∀ e ∈ checkThen a, e.LinesQuoted root tokens := by
  refine List.forall_mem_append.2 ⟨linesQuoted_checkFollows hop, ?_⟩
  split
  · simp
  next o ho =>
  split
  · simp
  · simp
  · exact linesQuoted_checkBranches hop
  · refine linesQuoted_typeMismatch ?_
    unfold thenMessage
    simp +decide [hop, OperandType.oneLine_name]

theorem linesQuoted_checkLeave : ∀ e ∈ checkLeave a, e.LinesQuoted root tokens := by
  refine List.forall_mem_append.2 ⟨linesQuoted_checkFollows hop, ?_⟩
  split
  · simp
  next o ho =>
  split_ifs
  · simp
  · refine linesQuoted_typeMismatch ?_
    unfold leaveMessage
    simp +decide [hop, o.type.oneLine_name]

end

theorem linesQuoted_parameterName {t : Token} (ht : t ∈ tokens) :
    ∀ e ∈ parameterName t, e.LinesQuoted root tokens := by
  unfold parameterName
  split
  · simp
  next name hname =>
  split_ifs
  · simp
  · exact List.forall_mem_singleton.2 trivial
  · refine List.forall_mem_singleton.2 ?_
    by_cases hline : OneLine name
    · refine .inl ?_
      show OneLine ("Parameter '" ++ name ++ "' must be a local variable name starting with '_'")
      simp +decide [hline]
    · exact .inr (.parameter ht hname hline)

theorem linesQuoted_parameter {x : Expr} (hx : DrawnFrom tokens x.nodes) :
    ∀ e ∈ parameter x, e.LinesQuoted root tokens := by
  have hbare := x.bare_mem_nodes
  unfold parameter
  split
  · next t ht =>
    rw [ht] at hbare
    exact linesQuoted_parameterName (hx _ hbare t rfl)
  · next elements span harray =>
    split
    · next t ht =>
      obtain ⟨first, hfirst, hstring⟩ := Option.map_eq_some_iff.1 ht
      have helements : x.elements? = some elements := by rw [Expr.elements?, harray]
      have hnode := Expr.nodes_of_mem_elements? helements (List.mem_of_head? hfirst)
        first.bare_mem_nodes
      rw [hstring] at hnode
      exact linesQuoted_parameterName (hx _ hnode t rfl)
    · simp
    · exact linesQuoted_typeMismatch (by decide)
  · simp
  · exact linesQuoted_typeMismatch (by decide)

theorem linesQuoted_checkParameters (hnodes : DrawnFrom tokens a.nodes) :
    ∀ e ∈ checkParameters a, e.LinesQuoted root tokens := by
  unfold checkParameters
  split
  · simp
  next list hlist =>
  intro e he
  obtain ⟨o, ho, helements⟩ := Option.bind_eq_some_iff.1 hlist
  obtain ⟨x, hx, he⟩ := List.mem_flatMap.1 he
  refine linesQuoted_parameter (fun n hn => ?_) e he
  exact hnodes n (a.nodes_right ho (Expr.nodes_of_mem_elements? helements hx hn))

theorem linesQuoted_checkFile {paths : Option PathCheck}
    (hpaths : ∀ check ∈ paths, check.root = root) (hnodes : DrawnFrom tokens a.nodes) :
    ∀ e ∈ checkFile paths a, e.LinesQuoted root tokens := by
  unfold checkFile
  split
  · next _ _ check o ho =>
    obtain rfl := hpaths check rfl
    split
    · simp
    next written hwritten =>
    split_ifs
    · simp
    obtain ⟨t, ht, hvalue⟩ := Option.bind_eq_some_iff.1 hwritten
    have hbare : o.expr.bare = .string t := by
      unfold Expr.stringToken? at ht
      split at ht
      · next hbare => rw [hbare, Option.some.inj ht]
      · cases ht
    have hmem : t ∈ tokens :=
      hnodes _ (a.nodes_right ho (hbare ▸ o.expr.bare_mem_nodes)) t rfl
    refine List.forall_mem_singleton.2 ?_
    by_cases hline : OneLine written ∧ OneLine check.root.text
    · refine .inl ?_
      show OneLine ("File '" ++ written ++ "' not found under " ++ check.root.text)
      simp +decide [hline]
    · exact .inr (.file hmem hvalue (not_and_or.1 hline) _)
  · simp

/-- Whatever rule a command has, a newline in what it has to say is quoted. -/
theorem linesQuoted_check {o : Operator} {paths : Option PathCheck} (hop : OneLine a.op.text)
    (hpaths : ∀ check ∈ paths, check.root = root) (hnodes : DrawnFrom tokens a.nodes) :
    ∀ e ∈ o.check paths a, e.LinesQuoted root tokens := by
  unfold check
  split
  · exact linesQuoted_checkTypes hop
  · exact linesQuoted_checkCondition hop
  · exact linesQuoted_checkThen hop
  · exact linesQuoted_checkLeave hop
  · exact List.forall_mem_append.2 ⟨linesQuoted_checkTypes hop,
      linesQuoted_checkParameters hnodes⟩
  · exact List.forall_mem_append.2 ⟨linesQuoted_checkTypes hop,
      linesQuoted_checkFile hpaths hnodes⟩

end Operator

theorem Application.oneLine_arityMessage {a : Application} (hop : OneLine a.op.text)
    (o : Overloads) : OneLine (a.arityMessage o) := by
  have hname : OneLine ("'" ++ a.op.text ++ "'") := by simp +decide [hop]
  unfold arityMessage
  dsimp only
  split <;> split_ifs <;> exact (oneLine_append _ _).2 ⟨hname, by decide⟩

theorem Checker.linesQuoted_checkApplication {c : Checker} {a : Application}
    (hop : OneLine a.op.text) (hpaths : ∀ check ∈ c.paths, check.root = root)
    (hnodes : DrawnFrom tokens a.nodes) :
    ∀ e ∈ c.checkApplication a, e.LinesQuoted root tokens := by
  intro e he
  unfold checkApplication at he
  split at he
  · next d hd =>
    obtain ⟨o, -, ho⟩ := Option.bind_eq_some_iff.1 hd
    unfold Application.arityComplaint at ho
    split_ifs at ho
    obtain rfl := Option.some.inj ho
    obtain rfl := List.mem_singleton.1 he
    exact .inl (a.oneLine_arityMessage hop o)
  · rcases List.mem_append.1 he with he | he
    · split at he
      · exact Operator.linesQuoted_check hop hpaths hnodes e he
      · simp at he
    · obtain ⟨name, t, rfl⟩ := exists_of_mem_loopCounter he
      trivial

/-! ## Trees -/

namespace Expr

variable {c : Checker} {n : Expr} {a : Application}

/-- The command of a node is the token that the node keeps. -/
theorem token?_of_application? (h : n.application? c = some a) : n.token? = some a.op := by
  cases n with
  | nullary op | unary op right | binary left op right | dangling left op =>
    obtain rfl := Option.some.inj h
    rfl
  | _ => cases h

/-- What is read as a command is a name or an operator. -/
theorem Built.kind_op {v : Vocabulary} (hn : n.Built v) (h : n.application? c = some a) :
    a.op.kind = .identifier ∨ a.op.kind = .operator := by
  cases n with
  | nullary op =>
    obtain rfl := Option.some.inj h
    exact .inl hn.1
  | unary op right =>
    obtain rfl := Option.some.inj h
    exact hn.2.elim (fun hsign => .inr (Token.kind_eq_of_isSign hsign)) fun hname => .inl hname.1
  | binary left op right =>
    obtain rfl := Option.some.inj h
    have hprecedence := hn.1
    unfold Vocabulary.precedence? at hprecedence
    split at hprecedence
    · next hk => exact .inr hk
    · next hk => exact .inl hk
    · cases hprecedence
  | dangling left op => exact hn.elim
  | _ => cases h

end Expr

/-- A newline in what the walk over the tree of a script has to say is quoted. -/
theorem linesQuoted_entriesOfStatements {v : Vocabulary} {strict : Bool} {source : String}
    {script : Script} {c : Checker}
    (hread : (Script.read v strict (Token.scan source) {}).1 = .ok script)
    (hpaths : ∀ check ∈ c.paths, check.root = root) :
    ∀ e ∈ entriesOfStatements c script.statements, e.LinesQuoted root (Token.scan source) := by
  intro e he
  have hdrawn := drawnFrom_of_read hread
  rw [Cursor.tokens_ofTokens_scan] at hdrawn
  obtain ⟨n, a, hn, ha, he⟩ := findsAt_entriesOfStatements c script.statements e he
  have hmem := hn n.self_mem_nodes
  obtain ⟨st, hst, hnode⟩ := mem_nodesOfStatements.1 hmem
  have hkind := ((allBuilt_of_read hread st hst).built n hnode).kind_op ha
  have hop : OneLine a.op.text := by
    have htoken : a.op ∈ Token.scan source :=
      hdrawn n hmem a.op (Expr.token?_of_application? ha)
    rcases hkind with hk | hk <;>
      exact Token.oneLine_text htoken (by simp [hk]) (by simp [hk])
  have hnodes := (Expr.span_and_nodes_of_application? ha).2
  exact Checker.linesQuoted_checkApplication hop hpaths
    (fun m hm => hdrawn m (hn (hnodes hm))) e he

/-! ## Runs -/

/-- A newline in what reading a script has to say is quoted. -/
theorem linesQuoted_of_read (root : Path) (v : Vocabulary) (strict : Bool) (source : String) :
    ∀ d ∈ (Script.read v strict (Token.scan source) {}).2.diagnostics,
      OneLine d.message ∨ d.QuotesLines root (Token.scan source) := by
  intro d hd
  obtain ⟨t, ht, expected, hexpected, rfl⟩ := asksIn_of_read d hd
  rw [Cursor.tokens_ofTokens_scan] at ht
  have hasked : OneLine expected := by
    have hall : Grammar.askedFor.all (fun s => OneLine s) = true := by decide
    exact of_decide_eq_true (List.all_eq_true.1 hall expected hexpected)
  by_cases hline : t.kind = .string → OneLine t.text
  · exact .inl (Token.oneLine_unexpected ht hasked hline)
  · obtain ⟨hk, hline⟩ := Classical.not_imp.1 hline
    exact .inr (.literal ht hk hline expected)

/-- A newline in what a run has to say is quoted. -/
theorem linesQuoted_of_mem_lintTokens {catalogue : Catalogue} {options : Options} {files : Files}
    {ledger : Ledger} {source : String} {d : Diagnostic}
    (hd : d ∈ (lintTokens catalogue options files ledger (Token.scan source)).diagnostics) :
    OneLine d.message ∨ d.QuotesLines options.root (Token.scan source) := by
  have hreading := linesQuoted_of_read options.root ⟨catalogue, ledger⟩ options.stopOnError source
  have huses := kind_of_usage_of_read ⟨catalogue, ledger⟩ options.stopOnError (Token.scan source)
  have habout := isAbout_of_read ⟨catalogue, ledger⟩ options.stopOnError (Token.scan source)
  rw [Cursor.tokens_ofTokens_scan] at habout
  cases hread : Script.read ⟨catalogue, ledger⟩ options.stopOnError (Token.scan source) {} with
  | mk outcome j =>
    rw [hread] at hreading huses habout
    cases outcome with
    | error failure =>
      rw [lintTokens_of_error files rfl hread] at hd
      exact hreading d hd
    | ok script =>
      have hpaths : ∀ check ∈ (Checker.ofOptions catalogue options files).paths,
          check.root = options.root := by
        intro check hcheck
        dsimp only [Checker.ofOptions] at hcheck
        split_ifs at hcheck
        · obtain rfl := Option.some.inj hcheck
          rfl
        · cases hcheck
      have hwalk := linesQuoted_entriesOfStatements (congrArg Prod.fst hread) hpaths
      obtain ⟨walked, hwalked, hentries⟩ := toList_entries_lintTokens files rfl hread
      rw [Journal.mem_diagnostics, hentries, List.mem_append, hwalked, List.mem_append] at hd
      rcases hd with (hd | hd) | hd
      · exact hreading d (j.mem_diagnostics.2 hd)
      · exact hwalk _ hd
      · -- the walk adds no uses, and reading only those of names
        obtain ⟨w, hw, hdw⟩ := List.mem_map.1 hd
        obtain rfl := Entry.diagnostic.inj hdw
        obtain ⟨u, assigned, huse, -, hmessage⟩ := exists_usage_of_mem_surveyFindings hw
        rw [hwalked, List.mem_append] at huse
        have hfound : .usage u assigned ∈ j.entries.toList := by
          refine huse.resolve_right fun huse => ?_
          obtain ⟨kind, -, n, hn, message, he⟩ :=
            isFoundAt_entriesOfStatements _ script.statements _ huse
          cases he
        have hk : u.kind = .identifier := huses u assigned hfound
        have htext : OneLine u.text :=
          Token.oneLine_text (habout _ hfound) (by simp [hk]) (by simp [hk])
        refine .inl ?_
        rw [hmessage]
        show OneLine ("Possibly undefined variable " ++ u.text)
        simp +decide [htext]

end SqfCheck
