import SqfCheck.Proofs.Anchors
import SqfCheck.Proofs.Blanking
import SqfCheck.Proofs.Undefined

/-!
# Positions in a script

Whatever a run has to say, it says of a place in the script as it was written
(`positions_lint`). A diagnostic begins where some token begins and ends where that token or a
later one ends, and a token on one line is found in the script at its line and its columns,
though the tokens are those of the text with all directives emptied.

For diagnostics this is a matter of the stages. What reading finds is at a token it has passed
(`Entry.IsAbout`), what the walk over the tree finds is at a node, which is anchored in the
tokens (`anchors_of_read`), and a variable without a definition is reported at a token that uses
it. For tokens it is a matter of lines. A directive takes whole lines, so what stands on a line
that is left as it is stands where it stood before (`Directive.exists_before`).
-/

namespace SqfCheck

open Parse Text

/-! ## Lines -/

namespace Position

/-- Every newline leads to the next line. -/
theorem line_after : ∀ (p : Position) (cs : List Char),
    (p.after cs).line = p.line + cs.count '\n'
  | _, [] => rfl
  | p, c :: cs => by
    have hstep : (p.step c).line = p.line + if c = '\n' then 1 else 0 := by
      unfold step
      split_ifs <;> rfl
    show ((p.step c).after cs).line = _
    rw [line_after (p.step c) cs, hstep, List.count_cons]
    simp only [beq_iff_eq]
    omega

/-- A line with its newline leads to the beginning of the next line. -/
theorem after_line (p : Position) {line : List Char} (h : '\n' ∉ line) (cs : List Char) :
    p.after (line ++ '\n' :: cs) = after ⟨p.line + 1, 1⟩ cs := by
  have hline : (p.after line).line = p.line := by
    rw [line_after, List.count_eq_zero.2 h, Nat.add_zero]
  rw [after_append, ← hline]
  rfl

end Position

namespace Directive

/-- A word that has no newline before its last character lies on one line, the newline of the
line included. -/
theorem isPrefix_line {word after line rest : List Char} (hword : '\n' ∉ word.dropLast)
    (h : word ++ after = line ++ '\n' :: rest) : word <+: line ++ ['\n'] := by
  have hline : line ++ ['\n'] <+: word ++ after := ⟨rest, by rw [h]; simp⟩
  rcases List.prefix_or_prefix_of_prefix (List.prefix_append word after) hline with
    hprefix | ⟨more, rfl⟩
  · exact hprefix
  · cases more with
    | nil => simp
    | cons c cs =>
      rw [List.dropLast_append_of_ne_nil (List.cons_ne_nil c cs)] at hword
      simp at hword

/-- A word on one of the lines that are left as they are stands in the full text too, at the same
position. -/
theorem exists_before {c : Char} {cs : List Char} (hc : c ≠ '\n')
    (hcs : '\n' ∉ (c :: cs).dropLast) :
    ∀ {emptied lines : List (List Char)}, Emptied emptied lines → (∀ line ∈ lines, '\n' ∉ line) →
      ∀ {before after : List Char},
        ['\n'].intercalate emptied = before ++ (c :: cs) ++ after →
          ∃ before' after', ['\n'].intercalate lines = before' ++ (c :: cs) ++ after' ∧
            ∀ p : Position, p.after before' = p.after before
  | _, _, .nil, _, before, after, h => by simp at h
  | _, _, .cons (.inl rfl) .nil, _, before, after, h => ⟨before, after, h, fun _ => rfl⟩
  | _, _, .cons (.inr rfl) .nil, _, before, after, h => by simp at h
  | e :: _ :: _, line :: line' :: lines, .cons he (.cons he' hrest), hlines, before, after, h => by
    rw [List.intercalate_cons_cons, List.append_assoc, List.singleton_append,
      List.append_assoc] at h
    rw [List.intercalate_cons_cons, List.append_assoc, List.singleton_append]
    have hline := hlines line List.mem_cons_self
    have hnone : '\n' ∉ e := by
      rcases he with rfl | rfl
      · exact hline
      · simp
    rcases List.append_eq_append_iff.1 h with ⟨between, rfl, hbetween⟩ | ⟨start, hstart, hword⟩
    · -- the word stands on a later line
      cases between with
      | nil => exact absurd (List.cons.inj hbetween).1.symm hc
      | cons d between =>
        rw [List.cons_append, ← List.append_assoc] at hbetween
        obtain ⟨rfl, hlater⟩ := List.cons.inj hbetween
        obtain ⟨before', after', htext, hafter⟩ := exists_before hc hcs (.cons he' hrest)
          (fun l hl => hlines l (List.mem_cons_of_mem line hl)) hlater
        refine ⟨line ++ '\n' :: before', after', by rw [htext]; simp, fun p => ?_⟩
        rw [p.after_line hline, p.after_line hnone, hafter]
    · -- the word stands on this line, which is not empty
      have hne : start ≠ [] := by
        rintro rfl
        exact hc (List.cons.inj hword).1
      obtain rfl : e = line := he.resolve_right (by simp [hstart, hne])
      obtain ⟨more, hmore⟩ := isPrefix_line hcs hword
      refine ⟨before, more ++ ['\n'].intercalate (line' :: lines), ?_, fun _ => rfl⟩
      calc e ++ '\n' :: ['\n'].intercalate (line' :: lines)
          = before ++ (start ++ ['\n']) ++ ['\n'].intercalate (line' :: lines) := by simp [hstart]
        _ = before ++ (c :: cs ++ more) ++ ['\n'].intercalate (line' :: lines) := by rw [hmore]
        _ = before ++ (c :: cs) ++ (more ++ ['\n'].intercalate (line' :: lines)) := by simp

end Directive

/-! ## Tokens -/

/-- What is no blank and no comment does not begin with a blank. -/
theorem Lexeme.head_of_mem_all (cs : List Char) : ∀ l ∈ all cs, ∀ kind, l.cls = .token kind →
    ∃ d ds, l.text = d :: ds ∧ isBlank d = false := by
  fun_induction all cs with
  | case1 => simp
  | case2 c cs ih =>
    intro l hl kind hcls
    rcases List.mem_cons.1 hl with rfl | hl
    · obtain ⟨d, ds, htext⟩ := List.exists_cons_of_ne_nil (first_text_ne_nil c cs)
      obtain ⟨rest, hrest⟩ := first_text_isPrefix c cs
      rw [htext] at hrest
      obtain rfl := (List.cons.inj hrest).1
      refine ⟨d, ds, htext, eq_false_of_ne_true fun hblank => ?_⟩
      rw [first, if_pos hblank] at hcls
      cases hcls
    · exact ih l hl kind hcls

namespace Token

/-- The text of the token stands in the script, at the span of the token. -/
def FoundIn (t : Token) (source : String) : Prop :=
  ∃ before after, source.toList = before ++ t.text.toList ++ after ∧
    t.span = .ofText (Position.start.after before) t.text.toList

variable {source : String} {t : Token}

/-- A token is found in the text it was cut from. -/
theorem foundIn_of_mem_scan (ht : t ∈ scan source) (hk : t.kind ≠ .endOfInput) :
    t.FoundIn source := by
  obtain ⟨before, l, after, hall, -, htext, hspan⟩ :=
    (mem_place ht).resolve_right fun hend => hk hend.1
  have hsource := Lexeme.flatMap_text_all source.toList
  rw [hall, List.flatMap_append, List.flatMap_cons, ← List.append_assoc] at hsource
  rw [FoundIn, htext, String.toList_ofList]
  exact ⟨_, _, hsource.symm, hspan⟩

theorem head_of_mem_scan (ht : t ∈ scan source) (hk : t.kind ≠ .endOfInput) :
    ∃ c cs, t.text.toList = c :: cs ∧ c ≠ '\n' := by
  obtain ⟨l, hl, hcls, htext⟩ :=
    (exists_lexeme_of_mem_scan ht).resolve_right fun hend => hk hend.1
  obtain ⟨c, cs, hl, hblank⟩ := Lexeme.head_of_mem_all source.toList l hl t.kind hcls
  refine ⟨c, cs, by rw [htext, String.toList_ofList, hl], ?_⟩
  rintro rfl
  cases hblank

/-- A token of the text without directives that lies on one line is found in the script. -/
theorem foundIn_of_mem_scan_blank (ht : t ∈ scan (Directive.blank source))
    (hk : t.kind ≠ .endOfInput) (hline : t.span.first.line = t.span.last.line) :
    t.FoundIn source := by
  obtain ⟨before, after, hblank, hspan⟩ := foundIn_of_mem_scan ht hk
  obtain ⟨c, cs, htext, hc⟩ := head_of_mem_scan ht hk
  rw [hspan] at hline
  have hcount : t.text.toList.dropLast.count '\n' = 0 := by
    have hlast := Position.line_after (Position.start.after before) t.text.toList.dropLast
    exact Nat.left_eq_add.1 (hline.trans hlast)
  rw [htext] at hcount hblank
  rw [Directive.blank, String.toList_ofList] at hblank
  obtain ⟨before', after', hsource, hbefore⟩ := Directive.exists_before hc
    (List.count_eq_zero.1 hcount) (Directive.emptied_blankLines _ _)
    (not_mem_of_mem_splitOn '\n' source.toList) hblank
  rw [intercalate_splitOn] at hsource
  exact ⟨before', after', by rw [htext, hsource], by rw [hbefore, hspan]⟩

/-- A token does not end before it begins. -/
theorem not_before_of_mem_scan (ht : t ∈ scan source) : ¬t.span.last.Before t.span.first := by
  rcases mem_place ht with ⟨before, l, after, -, -, -, hspan⟩ | ⟨-, -, q, hspan⟩
  · rw [hspan]
    intro hbefore
    by_cases hnil : l.text.dropLast = []
    · rw [Span.ofText, Position.lastOf, hnil] at hbefore
      exact Position.Before.irrefl _ hbefore
    · exact Position.Before.irrefl _ (hbefore.trans (Position.before_after _ hnil))
  · rw [hspan]
    exact Position.Before.irrefl q

end Token

/-- What is anchored in the tokens of a text does not end before it begins. -/
theorem Span.Anchored.not_before {span : Span} {source : String}
    (h : span.Anchored (Token.scan source)) : ¬span.last.Before span.first := by
  obtain ⟨c, hsub, hfirst, u, hu, hlast⟩ := h
  have hown : ¬u.span.last.Before u.span.first := Token.not_before_of_mem_scan (hsub.subset hu)
  have hpairwise := (Token.scan_pairwise source).sublist hsub.sublist
  rw [hfirst, hlast]
  rcases List.mem_cons.1 hu with rfl | hu
  · exact hown
  · exact fun hbefore => hown (hbefore.trans ((List.pairwise_cons.1 hpairwise).1 u hu))

/-! ## Diagnostics -/

/-- What reading writes down about the tokens : a failure at one of them, or a use by one of
them. -/
def Entry.IsAbout (tokens : List Token) : Entry → Prop
  | diagnostic d => ∃ u ∈ tokens, d.span = u.span
  | usage u _ => u ∈ tokens
  | definition _ _ => False

theorem Entry.IsAbout.mono {e : Entry} {tokens more : List Token} (h : e.IsAbout tokens)
    (hsub : tokens ⊆ more) : e.IsAbout more := by
  cases e with
  | diagnostic d =>
    obtain ⟨u, hu, hspan⟩ := h
    exact ⟨u, hsub hu, hspan⟩
  | usage u assigned => exact hsub h
  | definition name u => exact h

namespace Parse

variable {v : Vocabulary} {strict : Bool} {s t : ParseState}

/-- What a step writes down is about the token under the cursor. -/
theorem Step.isAbout (h : Step v strict s t) : ∀ e ∈ t.journal.entries.toList,
    e ∈ s.journal.entries.toList ∨ e.IsAbout [s.cursor.current] := by
  cases h with
  | pass => exact fun e he => .inl he
  | name =>
    intro e he
    rw [journal_resolve, Journal.toList_entries_writeAll, List.mem_append, noted] at he
    refine he.imp_right fun he => ?_
    split_ifs at he
    · obtain rfl := List.mem_singleton.1 he
      exact List.mem_singleton_self _
    · simp at he
  | repair r expected hr =>
    intro e he
    rw [Journal.toList_entries_repaired, List.mem_append, List.mem_singleton, hr] at he
    refine he.imp_right ?_
    rintro rfl
    exact ⟨_, List.mem_singleton_self _, rfl⟩
  | abort expected =>
    intro e he
    rw [Journal.abort, Journal.toList_entries_report, List.mem_append, List.mem_singleton] at he
    refine he.imp_right ?_
    rintro rfl
    exact ⟨_, List.mem_singleton_self _, rfl⟩

/-- What a row of steps writes down is about the tokens ahead of its beginning. -/
theorem Steps.isAbout (h : Steps v strict s t) : ∀ e ∈ t.journal.entries.toList,
    e ∈ s.journal.entries.toList ∨ e.IsAbout s.cursor.tokens := by
  induction h with
  | refl => exact fun e he => .inl he
  | @tail u w hu hstep ih =>
    have hcurrent : [u.cursor.current] ⊆ s.cursor.tokens :=
      List.cons_subset.2 ⟨(Steps.isSuffix_tokens hu).subset List.mem_cons_self, List.nil_subset _⟩
    intro e he
    exact (hstep.isAbout e he).elim (ih e) fun habout => .inr (habout.mono hcurrent)

end Parse

/-- What reading writes down is about the tokens. -/
theorem isAbout_of_read (v : Vocabulary) (strict : Bool) (tokens : List Token) :
    ∀ e ∈ (Script.read v strict tokens {}).2.entries.toList,
      e.IsAbout (Cursor.ofTokens tokens).tokens := by
  intro e he
  obtain ⟨s, hs, hj⟩ := Script.exists_steps_read v strict tokens {}
  rw [hj] at he
  exact (hs.isAbout e he).resolve_left (by simp)

/-- A variable without a definition is reported at a token that uses it, which the message names. -/
theorem exists_usage_of_mem_surveyFindings {options : Options} {ledger : Ledger} {j : Journal}
    {d : Diagnostic} (hd : d ∈ surveyFindings options ledger j.table) :
    ∃ u assigned, Entry.usage u assigned ∈ j.entries.toList ∧ d.span = u.span ∧
      d.message = (undefinedWarning u).message := by
  have hundefined : ∀ w ∈ undefinedLocals ledger j.table,
      ∃ u assigned, Entry.usage u assigned ∈ j.entries.toList ∧ w.span = u.span ∧
        w.message = (undefinedWarning u).message := by
    intro w hw
    rw [undefinedLocals_table] at hw
    obtain ⟨u, hu, rfl⟩ := List.mem_map.1 hw
    have huse := (List.mem_filter.1 ((perm_groupedByName _).subset hu)).1
    obtain ⟨e, he, heu⟩ := List.mem_filterMap.1 huse
    cases e with
    | usage x assigned =>
      obtain rfl := Option.some.inj heu
      exact ⟨x, assigned, he, rfl, rfl⟩
    | _ => cases heu
  unfold surveyFindings at hd
  split_ifs at hd
  · simp at hd
  · obtain ⟨w, hw, rfl⟩ := List.mem_map.1 hd
    exact hundefined w hw
  · exact hundefined d hd

/-- All that a run has to say is anchored in its tokens. -/
theorem anchored_of_mem_lintTokens {catalogue : Catalogue} {options : Options} {files : Files}
    {ledger : Ledger} {tokens : List Token} {d : Diagnostic}
    (hd : d ∈ (lintTokens catalogue options files ledger tokens).diagnostics) :
    d.span.Anchored (Cursor.ofTokens tokens).tokens := by
  have habout := isAbout_of_read ⟨catalogue, ledger⟩ options.stopOnError tokens
  rw [Journal.mem_diagnostics] at hd
  cases hread : Script.read ⟨catalogue, ledger⟩ options.stopOnError tokens {} with
  | mk outcome j =>
    rw [hread] at habout
    have hfailure : .diagnostic d ∈ j.entries.toList →
        d.span.Anchored (Cursor.ofTokens tokens).tokens := by
      intro hd
      obtain ⟨u, hu, hspan⟩ := habout _ hd
      rw [hspan]
      exact Span.anchored_of_mem hu
    cases outcome with
    | error failure =>
      rw [lintTokens_of_error files rfl hread] at hd
      exact hfailure hd
    | ok script =>
      have hfound := isFoundAt_entriesOfStatements (.ofOptions catalogue options files)
        script.statements
      obtain ⟨walked, hwalked, hentries⟩ := toList_entries_lintTokens files rfl hread
      rw [hentries, List.mem_append, hwalked, List.mem_append] at hd
      rcases hd with (hd | hd) | hd
      · exact hfailure hd
      · -- the walk over the tree complains at a node
        obtain ⟨kind, -, n, hn, message, he⟩ := hfound _ hd
        obtain rfl := Entry.diagnostic.inj he
        have hanchors := anchors_of_read (congrArg Prod.fst hread)
        exact hanchors n hn
      · -- a use in the journal is one that reading wrote down, for the walk adds none
        obtain ⟨w, hw, hdw⟩ := List.mem_map.1 hd
        obtain rfl := Entry.diagnostic.inj hdw
        obtain ⟨u, assigned, huse, hspan, -⟩ := exists_usage_of_mem_surveyFindings hw
        rw [hwalked, List.mem_append] at huse
        rcases huse with huse | huse
        · rw [hspan]
          exact Span.anchored_of_mem (habout _ huse)
        · obtain ⟨kind, -, n, hn, message, he⟩ := hfound _ huse
          cases he

/-- Whatever a run has to say, it says of a place in the script as it was written. Every error and
every warning begins where some token of the text without directives begins, ends where some token
of it ends, the end of the text included, and does not end before it begins. And every token of
that text but the end that lies on one line is found in the script, directives included, at its
line and its columns. -/
theorem positions_lint (catalogue : Catalogue) (options : Options) (files : Files) (name : Path)
    (source : String) :
    let prepared := Prepared.ofSource files options.rootPath name source
    let tokens := Token.scan prepared.text
    let report := lint catalogue options files name source
    (∀ d ∈ report.errors ++ report.warnings, ∃ t ∈ tokens, ∃ u ∈ tokens,
      d.span.first = t.span.first ∧ d.span.last = u.span.last ∧
        ¬d.span.last.Before d.span.first) ∧
    ∀ t ∈ tokens, t.kind ≠ .endOfInput → t.span.first.line = t.span.last.line →
      t.FoundIn source := by
  intro prepared tokens report
  refine ⟨fun d hd => ?_, fun t ht hk hline => Token.foundIn_of_mem_scan_blank ht hk hline⟩
  have hmem : d ∈ (lintTokens catalogue options files prepared.ledger tokens).diagnostics := by
    rcases List.mem_append.1 hd with hd | hd
    · exact (List.mem_filter.1 hd).1
    · exact (List.mem_filter.1 hd).1
  have hanchored : d.span.Anchored tokens := by
    have hspan := anchored_of_mem_lintTokens hmem
    rwa [Cursor.tokens_ofTokens_scan] at hspan
  have horder := hanchored.not_before
  obtain ⟨c, hsub, hfirst, u, hu, hlast⟩ := hanchored
  exact ⟨c.current, hsub.subset List.mem_cons_self, u, hsub.subset hu, hfirst, hlast, horder⟩

/-- Below a directive of two lines, a name that stands on the third line is found there, and the
parenthesis that is not closed is reported at the end. -/
theorem positions_lint_directive :
    let source := "#define ONE \\\n 1\n _y = (ONE"
    let files := Files.memory []
    let tokens := Token.scan (Prepared.ofSource files none ⟨"init.sqf"⟩ source).text
    let report := lint {} {} files ⟨"init.sqf"⟩ source
    let t : Token := ⟨.identifier, "_y", ⟨⟨3, 2⟩, ⟨3, 3⟩⟩, none⟩
    report.errors.map Diagnostic.span = [.point ⟨3, 11⟩] ∧ t ∈ tokens ∧ t.FoundIn source ∧
      ∀ d ∈ report.errors ++ report.warnings, ∃ t ∈ tokens, ∃ u ∈ tokens,
        d.span.first = t.span.first ∧ d.span.last = u.span.last ∧
          ¬d.span.last.Before d.span.first := by
  intro source files tokens report t
  have herrors : report.errors.map Diagnostic.span = [.point ⟨3, 11⟩] := by
    decide +kernel
  have ht : t ∈ tokens := by
    decide +kernel
  obtain ⟨hspans, hfound⟩ := positions_lint {} {} files ⟨"init.sqf"⟩ source
  exact ⟨herrors, ht, hfound t ht (by decide) rfl, hspans⟩

end SqfCheck
