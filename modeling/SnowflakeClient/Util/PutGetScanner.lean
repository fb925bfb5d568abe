import SnowflakeClient.Util.PutGetCommand

/-!
# The scanner for PUT and GET commands

`_is_put_get_command` on Windows: a loop over the text with a flag for comments. The condition of
the loop compares the pointer, not the character, with zero, so nothing but an answer ends it.

The scanner enters a comment at its star, which it may take for the star of the end: it has left the
comment after `/*/`. A keyword needs no space after it. `scanner_agrees_iff`: the scanner gives the
answer of the pattern but for the texts of `ScannerMisreads`.
-/

namespace Snowflake

namespace PutGetCommand

/-- `_is_put_get_command` on Windows, on the memory from `it` on. -/
def scan (inCommentBlock : Bool) : (memory : List Char) → Run Empty Bool
  | [] => .outside
  | c :: memory =>
    if inCommentBlock then
      if c = '*' then
        match memory with
        | [] => .outside
        | d :: rest => if d = '/' then scan false rest else scan true (d :: rest)
      else scan true memory
    else if c = ' ' then scan false memory
    else if c = '/' then
      match memory with
      | [] => .outside
      | d :: rest => if d = '*' then scan true (d :: rest) else .returned false
    else if c = 'p' ∨ c = 'P' then
      keywordEnd 'u' 'U' memory
    else if c = 'g' ∨ c = 'G' then
      keywordEnd 'e' 'E' memory
    else .returned false
where
  /-- The second and the third letter. -/
  keywordEnd (lower upper : Char) : (memory : List Char) → Run Empty Bool
  | [] => .outside
  | c :: memory =>
    if c = lower ∨ c = upper then
      match memory with
      | [] => .outside
      | d :: _ => .returned (d = 't' ∨ d = 'T')
    else .returned false

/-- `_is_put_get_command` on Windows, where nothing after the terminator can be read. -/
def scanPutGetCommand (sqlText : List Char) : Run Empty Bool := scan false (sqlText ++ ['\x00'])

/-! ## What it skips -/

/-- The three letters, with anything after them. -/
def startsKeyword : List Char → Bool
  | a :: b :: c :: _ =>
    [a.toLower, b.toLower, c.toLower] == ['p', 'u', 't'] ||
      [a.toLower, b.toLower, c.toLower] == ['g', 'e', 't']
  | _ => false

/-- `Scanned text rest`: the text is spaces and comments, as the scanner reads them, and then
`rest`. The star that begins a comment may end it too. -/
inductive Scanned : List Char → List Char → Prop
  | rest {text : List Char} (h : ∀ body, dropSpaces text ≠ '/' :: '*' :: body) :
    Scanned text (dropSpaces text)
  | comment {text body back rest : List Char} (hopen : dropSpaces text = '/' :: '*' :: body)
    (hclose : afterClose ('*' :: body) = some back) (h : Scanned back rest) : Scanned text rest

section

variable {text rest memory : List Char}

theorem scan_space (memory : List Char) : scan false (' ' :: memory) = scan false memory := by
  conv_lhs => unfold scan
  rfl

theorem scan_inside {c : Char} (hc : c ≠ '*') (memory : List Char) :
    scan true (c :: memory) = scan true memory := by
  conv_lhs => unfold scan
  simp [hc]

theorem scan_dropSpaces (text memory : List Char) :
    scan false (text ++ memory) = scan false (dropSpaces text ++ memory) := by
  induction text with
  | nil => rfl
  | cons c text ih =>
    by_cases hc : c = ' '
    · subst hc
      rw [List.cons_append, scan_space, ih, dropSpaces_cons]
    · rw [dropSpaces, List.dropWhile_cons_of_neg (by simpa using hc)]

/-- In a comment the scanner goes to its first end, or out of the text. -/
theorem scan_comment (text : List Char) :
    scan true (text ++ ['\x00']) =
      ((afterClose text).map scanPutGetCommand).getD .outside := by
  induction text with
  | nil => rfl
  | cons c text ih =>
    unfold afterClose
    split
    next rest => rfl
    next hno =>
      by_cases hc : c = '*'
      · subst hc
        cases text with
        | nil => rfl
        | cons d text =>
          have hd : d ≠ '/' := fun h => hno text rfl (h ▸ rfl)
          rw [← ih]
          simp [scan, hd]
      · rw [List.cons_append, scan_inside hc, ih]

theorem scanPutGetCommand_open {body : List Char} (hopen : dropSpaces text = '/' :: '*' :: body) :
    scanPutGetCommand text =
      ((afterClose ('*' :: body)).map scanPutGetCommand).getD .outside := by
  rw [← scan_comment, scanPutGetCommand, scan_dropSpaces, hopen]
  conv_lhs => unfold scan
  simp

/-- The second and the third letter of a keyword. -/
def endsKeyword (letter : Char) : List Char → Bool
  | b :: c :: _ => b.toLower = letter ∧ c.toLower = 't'
  | _ => false

theorem startsKeyword_cons (a : Char) (text : List Char) :
    startsKeyword (a :: text) =
      (a.toLower == 'p' && endsKeyword 'u' text || a.toLower == 'g' && endsKeyword 'e' text) := by
  rcases text with _ | ⟨b, _ | ⟨c, text⟩⟩
  · simp [startsKeyword, endsKeyword]
  · simp [startsKeyword, endsKeyword]
  · rw [Bool.eq_iff_iff]
    simp [startsKeyword, endsKeyword]

/-- Both letters are read in the text or at its terminator. -/
theorem keywordEnd_eq {lower upper : Char} (hlow : 97 ≤ lower.toNat) (hhigh : lower.toNat ≤ 122)
    (hupper : upper.toNat + 32 = lower.toNat) (text : List Char) :
    scan.keywordEnd lower upper (text ++ ['\x00']) = .returned (endsKeyword lower text) := by
  have hfold (d : Char) : d = lower ∨ d = upper ↔ d.toLower = lower :=
    (CText.toLower_eq_iff hlow hhigh hupper).symm
  have ht (d : Char) : d = 't' ∨ d = 'T' ↔ d.toLower = 't' :=
    (CText.toLower_eq_iff (by decide) (by decide) (by decide)).symm
  rcases text with _ | ⟨b, _ | ⟨c, text⟩⟩
  · have hnul : ¬('\x00' = lower ∨ '\x00' = upper) := by
      rw [hfold]
      rintro rfl
      exact absurd hlow (by decide)
    simp [scan.keywordEnd, hnul, endsKeyword]
  · by_cases hb : b = lower ∨ b = upper <;> simp [scan.keywordEnd, hb, endsKeyword]
  · by_cases hb : b = lower ∨ b = upper
    · simp [scan.keywordEnd, hb, endsKeyword, (hfold b).mp hb, ht c]
    · simp [scan.keywordEnd, hb, endsKeyword, mt (hfold b).mpr hb]

theorem scan_rest {text : List Char} (hcomment : ∀ body, text ≠ '/' :: '*' :: body)
    (hspace : text.head? ≠ some ' ') :
    scan false (text ++ ['\x00']) = .returned (startsKeyword text) := by
  cases text with
  | nil => rfl
  | cons c text =>
    have hc : c ≠ ' ' := fun h => hspace (h ▸ rfl)
    have hp : c = 'p' ∨ c = 'P' ↔ c.toLower = 'p' :=
      (CText.toLower_eq_iff (by decide) (by decide) (by decide)).symm
    have hg : c = 'g' ∨ c = 'G' ↔ c.toLower = 'g' :=
      (CText.toLower_eq_iff (by decide) (by decide) (by decide)).symm
    rw [startsKeyword_cons, List.cons_append]
    unfold scan
    rw [if_neg (by decide), if_neg hc]
    by_cases hslash : c = '/'
    · subst hslash
      rw [if_pos rfl]
      cases text with
      | nil => rfl
      | cons d text =>
        have hd : d ≠ '*' := fun h => hcomment text (h ▸ rfl)
        simp [hd, show '/'.toLower = '/' from rfl]
    · rw [if_neg hslash]
      by_cases hcp : c = 'p' ∨ c = 'P'
      · rw [if_pos hcp, keywordEnd_eq (by decide) (by decide) (by decide), hp.mp hcp]
        simp
      · rw [if_neg hcp]
        by_cases hcg : c = 'g' ∨ c = 'G'
        · rw [if_pos hcg, keywordEnd_eq (by decide) (by decide) (by decide), hg.mp hcg]
          simp
        · rw [if_neg hcg]
          simp [mt hp.mpr hcp, mt hg.mpr hcg]

theorem head?_dropSpaces (text : List Char) : (dropSpaces text).head? ≠ some ' ' := by
  intro h
  have hhead := List.head?_dropWhile_not (· == ' ') text
  rw [← dropSpaces, h] at hhead
  simp at hhead

/-- The answer is that of the first letters after the spaces and comments. -/
theorem Scanned.answer (h : Scanned text rest) :
    scanPutGetCommand text = .returned (startsKeyword rest) := by
  induction h with
  | rest h =>
    rw [scanPutGetCommand, scan_dropSpaces]
    exact scan_rest h (head?_dropSpaces _)
  | @comment text body back rest hopen hclose _ ih =>
    rw [scanPutGetCommand_open hopen, hclose]
    exact ih

/-- A text with a comment that does not end is left by the scanner. -/
theorem scanned_or_outside (text : List Char) :
    (∃ rest, Scanned text rest) ∨ scanPutGetCommand text = .outside := by
  induction hlen : text.length using Nat.strongRecOn generalizing text with
  | _ n ih =>
    by_cases hopen : ∃ body, dropSpaces text = '/' :: '*' :: body
    · obtain ⟨body, hopen⟩ := hopen
      cases hclose : afterClose ('*' :: body) with
      | none =>
        right
        rw [scanPutGetCommand_open hopen, hclose]
        rfl
      | some back =>
        have hshort : back.length < n := by
          obtain ⟨front, hfront⟩ := afterClose_eq_some hclose
          have hlength := congrArg List.length hfront
          have hle := length_dropSpaces_le text
          rw [hopen] at hle
          simp only [List.length_cons, List.length_append] at hlength hle
          omega
        rcases ih _ hshort back rfl with ⟨rest, hrest⟩ | houtside
        · exact .inl ⟨rest, .comment hopen hclose hrest⟩
        · right
          rw [scanPutGetCommand_open hopen, hclose]
          exact houtside
    · exact .inl ⟨_, .rest fun body hbody => hopen ⟨body, hbody⟩⟩

theorem startsKeyword_of_command (h : startsCommand text) : startsKeyword text := by
  unfold startsCommand at h
  split at h
  · exact h
  · cases h

/-- No comment comes before a command at the beginning. -/
theorem Scanned.of_command (h : Scanned text rest) (hcommand : startsCommand (dropSpaces text)) :
    rest = dropSpaces text := by
  cases h with
  | rest h => rfl
  | comment hopen =>
    rw [hopen] at hcommand
    exact absurd hcommand (not_startsCommand_slash _)

theorem scanned_of_command (h : startsCommand (dropSpaces text)) :
    Scanned text (dropSpaces text) := by
  refine .rest fun body hbody => ?_
  rw [hbody] at h
  exact not_startsCommand_slash _ h

/-- The command that the scanner comes to is at the beginning, or after the end of a comment. -/
theorem Scanned.command_after_close (h : Scanned text rest) (hcommand : startsCommand rest) :
    startsCommand (dropSpaces text) ∨ CommandAfterClose text := by
  induction h with
  | rest h => exact .inl hcommand
  | @comment text body back rest hopen hclose _ ih =>
    have hfound : CommandAfterClose ('*' :: body) :=
      (commandAfterClose_iff _).mpr ⟨back, hclose, ih hcommand⟩
    obtain ⟨blanks, hblanks⟩ := eq_append_dropSpaces text
    right
    rw [hblanks, hopen]
    simpa using hfound.append (blanks ++ ['/'])

end

/-! ## Against the pattern -/

/-- The text begins with a comment, and some end of a comment has a command after it. -/
def CommandAfterComment (text : List Char) : Prop :=
  ∃ body, dropSpaces text = '/' :: '*' :: body ∧ CommandAfterClose body

/-- The texts for which the scanner leaves the text or has another answer than the pattern. -/
inductive ScannerMisreads (text : List Char) : Prop
  /-- A comment does not end. -/
  | unclosed (h : ∀ rest, ¬Scanned text rest)
  /-- There is no space after the keyword that follows the comments, and no command for the
  pattern. -/
  | noSpace {rest : List Char} (h : Scanned text rest) (hkeyword : startsKeyword rest)
      (hspace : ¬startsCommand rest) (hno : ¬CommandAfterComment text)
  /-- The comment is `/*/`, which has no end for the pattern, and a command follows. -/
  | threeCharacters {back : List Char} (h : dropSpaces text = '/' :: '*' :: '/' :: back)
      (hcommand : startsCommand (dropSpaces back)) (hno : ¬CommandAfterClose back)
  /-- No keyword follows the comments, but a command follows what is the end of a comment for the
  pattern. -/
  | skipped {rest : List Char} (h : Scanned text rest) (hkeyword : ¬startsKeyword rest)
      (hcommand : CommandAfterComment text)

section

variable {text rest : List Char}

theorem isPutGetCommand_iff_commandAfterComment (text : List Char) :
    isPutGetCommand text ↔ startsCommand (dropSpaces text) ∨ CommandAfterComment text := by
  rw [isPutGetCommand_iff]
  refine or_congr Iff.rfl ⟨?_, ?_⟩
  · rintro ⟨body, back, htext, hcommand⟩
    exact ⟨_, htext, body, back, rfl, hcommand⟩
  · rintro ⟨_, htext, body, back, rfl, hcommand⟩
    exact ⟨body, back, htext, hcommand⟩

/-- The slash of `/*/` does not end the comment for the pattern. -/
theorem commandAfterComment_threeCharacters {back : List Char}
    (h : dropSpaces text = '/' :: '*' :: '/' :: back) :
    CommandAfterComment text ↔ CommandAfterClose back := by
  constructor
  · rintro ⟨body, hbody, front, back', hfront, hcommand⟩
    rw [h] at hbody
    cases hbody
    cases front with
    | nil => cases hfront
    | cons c front =>
      cases hfront
      exact ⟨front, back', rfl, hcommand⟩
  · exact fun hclose => ⟨_, h, hclose.append ['/']⟩

/-- The pattern finds the command that the scanner comes to, unless the comment is `/*/`. -/
theorem Scanned.found_or_threeCharacters (h : Scanned text rest) (hcommand : startsCommand rest) :
    startsCommand (dropSpaces text) ∨ CommandAfterComment text ∨
      ∃ back, dropSpaces text = '/' :: '*' :: '/' :: back ∧ startsCommand (dropSpaces back) := by
  cases h with
  | rest h => exact .inl hcommand
  | @comment _ _ back _ hopen hclose h =>
    right
    have hback := h.command_after_close hcommand
    unfold afterClose at hclose
    split at hclose
    next tail =>
      -- the star that begins the comment ends it
      cases hclose
      rcases hback with hstart | hlater
      · exact .inr ⟨back, hopen, hstart⟩
      · exact .inl ((commandAfterComment_threeCharacters hopen).mpr hlater)
    next => exact .inl ⟨_, hopen, (commandAfterClose_iff _).mpr ⟨back, hclose, hback⟩⟩

theorem ScannerMisreads.not_agrees (h : ScannerMisreads text) :
    scanPutGetCommand text ≠ .returned (isPutGetCommand text) := by
  intro hagrees
  cases h with
  | unclosed hopen =>
    rcases scanned_or_outside text with ⟨rest, hrest⟩ | houtside
    · exact hopen rest hrest
    · rw [houtside] at hagrees
      cases hagrees
  | noSpace h hkeyword hspace hno =>
    rw [h.answer, hkeyword, Run.returned.injEq] at hagrees
    rcases (isPutGetCommand_iff_commandAfterComment text).mp hagrees.symm with hstart | hlater
    · exact hspace (h.of_command hstart ▸ hstart)
    · exact hno hlater
  | @threeCharacters back h hcommand hno =>
    have hscanned : Scanned text (dropSpaces back) := .comment h rfl (scanned_of_command hcommand)
    rw [hscanned.answer, startsKeyword_of_command hcommand, Run.returned.injEq] at hagrees
    rcases (isPutGetCommand_iff_commandAfterComment text).mp hagrees.symm with hstart | hlater
    · rw [h] at hstart
      exact not_startsCommand_slash _ hstart
    · exact hno ((commandAfterComment_threeCharacters h).mp hlater)
  | skipped h hkeyword hcommand =>
    rw [h.answer, Bool.eq_false_iff.mpr hkeyword, Run.returned.injEq] at hagrees
    have hfound := (isPutGetCommand_iff_commandAfterComment text).mpr (.inr hcommand)
    rw [← hagrees] at hfound
    cases hfound

end

/-- The scanner stays in the text and gives the answer of the pattern, but for the texts that it
misreads. -/
theorem scanner_agrees_iff (text : CText.Terminated) :
    scanPutGetCommand text.chars = .returned (isPutGetCommand text.chars) ↔
      ¬ScannerMisreads text.chars := by
  refine ⟨fun hagrees h => h.not_agrees hagrees, fun hreads => ?_⟩
  obtain ⟨rest, hrest⟩ : ∃ rest, Scanned text.chars rest := by
    by_contra hopen
    exact hreads (.unclosed fun rest hrest => hopen ⟨rest, hrest⟩)
  rw [hrest.answer, Run.returned.injEq, Bool.eq_iff_iff, isPutGetCommand_iff_commandAfterComment]
  constructor
  · intro hkeyword
    by_contra hno
    rw [not_or] at hno
    by_cases hcommand : startsCommand rest
    · rcases hrest.found_or_threeCharacters hcommand with hstart | hlater | ⟨back, hthree, hback⟩
      · exact hno.1 hstart
      · exact hno.2 hlater
      · refine hreads (.threeCharacters hthree hback fun hclose => hno.2 ?_)
        exact (commandAfterComment_threeCharacters hthree).mpr hclose
    · exact hreads (.noSpace hrest hkeyword hcommand hno.2)
  · rintro (hstart | hlater)
    · rw [hrest.of_command hstart]
      exact startsKeyword_of_command hstart
    · by_contra hkeyword
      exact hreads (.skipped hrest hkeyword hlater)

theorem isPutGetCommand_eq_false {text : List Char}
    (hcommand : startsCommand (dropSpaces text) = false) (hcomment : afterComment text = none) :
    isPutGetCommand text = false := by
  rw [Bool.eq_false_iff, Ne, isPutGetCommand_iff_afterComment, hcommand, hcomment]
  simp

/-- A comment that does not end, a keyword at the end of the text, a comment of three characters,
and a command after what is no comment any more. -/
theorem scanner_disagrees :
    (scanPutGetCommand "/*".toList = .outside ∧ isPutGetCommand "/*".toList = false) ∧
      (scanPutGetCommand "put".toList = .returned true ∧ isPutGetCommand "put".toList = false) ∧
      (scanPutGetCommand "/*/put x".toList = .returned true ∧
        isPutGetCommand "/*/put x".toList = false) ∧
      (scanPutGetCommand "/**/x*/put y".toList = .returned false ∧
        isPutGetCommand "/**/x*/put y".toList = true) := by
  refine ⟨⟨by decide, ?_⟩, ⟨by decide, ?_⟩, ⟨by decide +kernel, ?_⟩, by decide +kernel, ?_⟩
  · exact isPutGetCommand_eq_false (by decide) (by decide)
  · exact isPutGetCommand_eq_false (by decide) (by decide)
  · exact isPutGetCommand_eq_false (by decide) (by decide)
  · rw [isPutGetCommand_iff]
    exact .inr ⟨"*/x".toList, "put y".toList, by decide, by decide⟩

end PutGetCommand

end Snowflake
