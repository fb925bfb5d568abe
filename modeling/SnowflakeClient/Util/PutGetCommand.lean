import SnowflakeClient.CText
import SnowflakeClient.Regex

/-!
# PUT and GET commands

`_is_put_get_command` (`lib/platform.c`) where the system has `regexec`. The text is the list of its
characters without the terminator; a dot then stands for any of them, the line feed included.

The pattern is meant to skip comments, but its `.*` runs over the ends of comments too. What it
accepts is `isPutGetCommand_iff`; it differs from a scanner that leaves a comment at its first end
(`afterComments`) for the texts of `put_get_command_iff`.
-/

namespace Snowflake

namespace PutGetCommand

open Regex Relation

/-! ## The pattern -/

/-- A character of the pattern, under `REG_ICASE`. -/
def char (c : Char) : Regex Char := .set fun d => d.toLower == c

/-- The dot. -/
def dot : Regex Char := .set fun _ => true

/-- `[ ]*`. -/
def spaces : Regex Char := .star (char ' ')

/-- `\/\*.*\*\/`. -/
def comment : Regex Char :=
  .seq (char '/') (.seq (char '*') (.seq (.star dot) (.seq (char '*') (char '/'))))

/-- `[ ]*\/\*.*\*\/[ ]*`. -/
def block : Regex Char := .seq spaces (.seq comment spaces)

/-- `put|get`. -/
def keyword : Regex Char :=
  .alt (.seq (char 'p') (.seq (char 'u') (char 't')))
    (.seq (char 'g') (.seq (char 'e') (char 't')))

/-- `([ ]*\/\*.*\*\/[ ]*)*([ ]*)*(put|get)[ ]+`. -/
def putGetRegex : Regex Char :=
  .seq (.star block) (.seq (.star spaces) (.seq keyword (.plus (char ' '))))

/-- `_is_put_get_command`. -/
def isPutGetCommand (sqlText : List Char) : Bool := putGetRegex.matchesStart sqlText

/-! ## What it is meant to find -/

def dropSpaces (text : List Char) : List Char := text.dropWhile (· == ' ')

/-- A keyword and a space. -/
def startsCommand : List Char → Bool
  | a :: b :: c :: ' ' :: _ =>
    [a.toLower, b.toLower, c.toLower] == ['p', 'u', 't'] ||
      [a.toLower, b.toLower, c.toLower] == ['g', 'e', 't']
  | _ => false

/-- What follows the first end of a comment. -/
def afterClose : List Char → Option (List Char)
  | [] => none
  | c :: text =>
    match c, text with
    | '*', '/' :: rest => some rest
    | _, text => afterClose text

/-- What follows a comment at the beginning, after spaces. -/
def afterComment (text : List Char) : Option (List Char) :=
  match dropSpaces text with
  | '/' :: '*' :: body => afterClose body
  | _ => none

theorem afterClose_eq_some {text rest : List Char} (h : afterClose text = some rest) :
    ∃ body, text = body ++ '*' :: '/' :: rest := by
  induction text with
  | nil => cases h
  | cons c text ih =>
    unfold afterClose at h
    split at h
    · cases h
      exact ⟨[], rfl⟩
    · obtain ⟨body, hbody⟩ := ih h
      exact ⟨c :: body, by rw [hbody]; rfl⟩

theorem eq_append_dropSpaces (text : List Char) : ∃ blanks, text = blanks ++ dropSpaces text :=
  ⟨_, List.takeWhile_append_dropWhile.symm⟩

theorem afterComment_eq_some {text rest : List Char} (h : afterComment text = some rest) :
    ∃ body, dropSpaces text = '/' :: '*' :: (body ++ '*' :: '/' :: rest) := by
  unfold afterComment at h
  split at h
  next body hbody =>
    obtain ⟨front, rfl⟩ := afterClose_eq_some h
    exact ⟨front, hbody⟩
  next => cases h

theorem length_dropSpaces_le (text : List Char) : (dropSpaces text).length ≤ text.length :=
  (List.dropWhile_sublist _).length_le

theorem afterComment_length {text rest : List Char} (h : afterComment text = some rest) :
    rest.length < text.length := by
  obtain ⟨body, hbody⟩ := afterComment_eq_some h
  have hle := length_dropSpaces_le text
  rw [hbody] at hle
  simp only [List.length_cons, List.length_append] at hle
  omega

/-- The text after its leading spaces and comments. -/
def afterComments (text : List Char) : List Char :=
  match _h : afterComment text with
  | some rest => afterComments rest
  | none => dropSpaces text
termination_by text.length
decreasing_by exact afterComment_length ‹_›

theorem afterComments_some {text rest : List Char} (h : afterComment text = some rest) :
    afterComments text = afterComments rest := by
  rw [afterComments]
  split
  next rest' h' =>
    rw [h] at h'
    cases h'
    rfl
  next h' =>
    rw [h] at h'
    cases h'

theorem afterComments_none {text : List Char} (h : afterComment text = none) :
    afterComments text = dropSpaces text := by
  rw [afterComments]
  split
  next rest' h' =>
    rw [h] at h'
    cases h'
  next => rfl

/-! ## What the pattern accepts -/

section Pattern

variable {text rest mid : List Char}

theorem begins_char {c : Char} :
    Begins (char c).lang text rest ↔ ∃ d, d.toLower = c ∧ text = d :: rest := by
  unfold char
  rw [begins_set]
  simp only [beq_iff_eq]

theorem begins_symbol {c : Char} (hc : c.isLower = false) (hfold : c.toLower = c) :
    Begins (char c).lang text rest ↔ text = c :: rest := by
  rw [begins_char]
  constructor
  · rintro ⟨d, hd, rfl⟩
    rw [CText.toLower_eq hc hd]
  · rintro rfl
    exact ⟨c, hfold, rfl⟩

theorem begins_space : Begins (char ' ').lang text rest ↔ text = ' ' :: rest :=
  begins_symbol (by decide) (by decide)

theorem dropSpaces_cons (text : List Char) : dropSpaces (' ' :: text) = dropSpaces text := rfl

theorem spaces_dropSpaces (text : List Char) : Begins spaces.lang text (dropSpaces text) := by
  apply begins_kstar.2
  induction text with
  | nil => exact .refl
  | cons c text ih =>
    by_cases hc : c = ' '
    · subst hc
      exact .head (begins_space.2 rfl) ih
    · unfold dropSpaces
      rw [List.dropWhile_cons_of_neg (by simpa using hc)]

theorem dropSpaces_of_chain (h : ReflTransGen (Begins (char ' ').lang) text rest) :
    dropSpaces rest = dropSpaces text := by
  induction h using ReflTransGen.head_induction_on with
  | refl => rfl
  | head hstep _ ih =>
    rw [begins_space.1 hstep, dropSpaces_cons, ih]

theorem dropSpaces_of_spaces (h : Begins spaces.lang text rest) :
    dropSpaces rest = dropSpaces text := dropSpaces_of_chain (begins_kstar.1 h)

theorem dropSpaces_of_runs (h : ReflTransGen (Begins spaces.lang) text rest) :
    dropSpaces rest = dropSpaces text := by
  induction h using ReflTransGen.head_induction_on with
  | refl => rfl
  | head hstep _ ih => rw [ih, dropSpaces_of_spaces hstep]

/-- The dot takes anything. -/
theorem dots_iff : ReflTransGen (Begins dot.lang) text rest ↔ ∃ front, text = front ++ rest := by
  constructor
  · intro h
    induction h using ReflTransGen.head_induction_on with
    | refl => exact ⟨[], rfl⟩
    | head hstep _ ih =>
      obtain ⟨c, -, rfl⟩ := begins_set.1 hstep
      obtain ⟨front, rfl⟩ := ih
      exact ⟨c :: front, rfl⟩
  · rintro ⟨front, rfl⟩
    induction front with
    | nil => exact .refl
    | cons c front ih => exact .head (begins_set.2 ⟨c, rfl, rfl⟩) ih

theorem begins_comment :
    Begins comment.lang text rest ↔ ∃ body, text = '/' :: '*' :: (body ++ '*' :: '/' :: rest) := by
  have hslash {a b : List Char} : Begins (char '/').lang a b ↔ a = '/' :: b :=
    begins_symbol (by decide) (by decide)
  have hstar {a b : List Char} : Begins (char '*').lang a b ↔ a = '*' :: b :=
    begins_symbol (by decide) (by decide)
  unfold comment
  simp only [lang, begins_mul, begins_kstar, hslash, hstar, dots_iff]
  constructor
  · rintro ⟨_, rfl, _, rfl, _, ⟨body, rfl⟩, _, rfl, rfl⟩
    exact ⟨body, rfl⟩
  · rintro ⟨body, rfl⟩
    exact ⟨_, rfl, _, rfl, _, ⟨body, rfl⟩, _, rfl, rfl⟩

theorem begins_keyword :
    Begins keyword.lang text rest ↔ ∃ a b c, text = a :: b :: c :: rest ∧
      ([a.toLower, b.toLower, c.toLower] = ['p', 'u', 't'] ∨
        [a.toLower, b.toLower, c.toLower] = ['g', 'e', 't']) := by
  unfold keyword
  simp only [lang, begins_add, begins_mul, begins_char]
  constructor
  · rintro (⟨_, ⟨a, ha, rfl⟩, _, ⟨b, hb, rfl⟩, c, hc, rfl⟩ |
      ⟨_, ⟨a, ha, rfl⟩, _, ⟨b, hb, rfl⟩, c, hc, rfl⟩)
    · exact ⟨a, b, c, rfl, .inl (by rw [ha, hb, hc])⟩
    · exact ⟨a, b, c, rfl, .inr (by rw [ha, hb, hc])⟩
  · rintro ⟨a, b, c, rfl, h | h⟩
    · simp only [List.cons.injEq] at h
      exact .inl ⟨_, ⟨a, h.1, rfl⟩, _, ⟨b, h.2.1, rfl⟩, c, h.2.2.1, rfl⟩
    · simp only [List.cons.injEq] at h
      exact .inr ⟨_, ⟨a, h.1, rfl⟩, _, ⟨b, h.2.1, rfl⟩, c, h.2.2.1, rfl⟩

theorem startsCommand_iff :
    startsCommand text ↔ ∃ mid, Begins keyword.lang text mid ∧
      ∃ rest, Begins (char ' ').plus.lang mid rest := by
  simp only [begins_keyword, begins_plus, begins_space]
  constructor
  · intro h
    unfold startsCommand at h
    split at h
    next a b c rest =>
      rw [Bool.or_eq_true, beq_iff_eq, beq_iff_eq] at h
      exact ⟨_, ⟨a, b, c, rfl, h⟩, rest, rest, rfl, .refl⟩
    next => cases h
  · rintro ⟨_, ⟨a, b, c, rfl, h⟩, _, rest, rfl, -⟩
    show (_ || _) = true
    rw [Bool.or_eq_true, beq_iff_eq, beq_iff_eq]
    exact h

/-- A command begins with a letter. -/
theorem startsCommand_head (h : startsCommand text) :
    ∃ a rest, text = a :: rest ∧ (a.toLower = 'p' ∨ a.toLower = 'g') := by
  obtain ⟨_, hkeyword, -⟩ := startsCommand_iff.1 h
  obtain ⟨a, b, c, htext, hletters⟩ := begins_keyword.1 hkeyword
  refine ⟨a, _, htext, ?_⟩
  rcases hletters with hletters | hletters
  · exact .inl (List.cons.inj hletters).1
  · exact .inr (List.cons.inj hletters).1

theorem dropSpaces_of_command (h : startsCommand text) : dropSpaces text = text := by
  obtain ⟨a, rest, rfl, hletter⟩ := startsCommand_head h
  have ha : a ≠ ' ' := by
    rintro rfl
    exact absurd hletter (by decide)
  unfold dropSpaces
  rw [List.dropWhile_cons_of_neg (by simpa using ha)]

/-- A comment at the beginning, up to any end of a comment, and spaces. -/
def Commented (text rest : List Char) : Prop :=
  ∃ body back, dropSpaces text = '/' :: '*' :: (body ++ '*' :: '/' :: back) ∧
    dropSpaces back = dropSpaces rest

theorem commented_of_block (h : Begins block.lang text rest) : Commented text rest := by
  obtain ⟨_, hspaces, hblock⟩ := begins_mul.1 h
  obtain ⟨back, hcomment, hafter⟩ := begins_mul.1 hblock
  obtain ⟨body, rfl⟩ := begins_comment.1 hcomment
  refine ⟨body, back, ?_, (dropSpaces_of_spaces hafter).symm⟩
  rw [← dropSpaces_of_spaces hspaces]
  rfl

/-- Two comments are one: the dots run over what is between them. -/
theorem Commented.trans (h : Commented text mid) (h' : Commented mid rest) :
    Commented text rest := by
  obtain ⟨body, back, htext, hback⟩ := h
  obtain ⟨body', back', hmid, hback'⟩ := h'
  obtain ⟨blanks, hsplit⟩ := eq_append_dropSpaces back
  rw [hback, hmid] at hsplit
  refine ⟨body ++ '*' :: '/' :: (blanks ++ '/' :: '*' :: body'), back', ?_, hback'⟩
  rw [htext, hsplit]
  simp

theorem commented_of_blocks (h : ReflTransGen (Begins block.lang) text rest) :
    rest = text ∨ Commented text rest := by
  induction h using ReflTransGen.head_induction_on with
  | refl => exact .inl rfl
  | head hstep _ ih =>
    have hblock := commented_of_block hstep
    rcases ih with rfl | ih
    · exact .inr hblock
    · exact .inr (hblock.trans ih)

theorem putGetRegex_iff :
    putGetRegex.matchesStart text ↔ ∃ mid rest, ReflTransGen (Begins block.lang) text mid ∧
      ReflTransGen (Begins spaces.lang) mid rest ∧ startsCommand rest := by
  rw [matchesStart_iff]
  simp only [startsCommand_iff]
  constructor
  · rintro ⟨_, h⟩
    obtain ⟨mid, hblocks, h⟩ := begins_mul.1 h
    obtain ⟨rest, hruns, h⟩ := begins_mul.1 h
    obtain ⟨after, hkeyword, h⟩ := begins_mul.1 h
    exact ⟨mid, rest, begins_kstar.1 hblocks, begins_kstar.1 hruns, after, hkeyword, _, h⟩
  · rintro ⟨mid, rest, hblocks, hruns, after, hkeyword, last, h⟩
    refine ⟨last, begins_mul.2 ⟨mid, begins_kstar.2 hblocks, ?_⟩⟩
    exact begins_mul.2 ⟨rest, begins_kstar.2 hruns, begins_mul.2 ⟨after, hkeyword, h⟩⟩

/-- The language of the pattern: a command after spaces, or after a comment that runs up to some end
of a comment. -/
theorem isPutGetCommand_iff (text : List Char) :
    isPutGetCommand text ↔ startsCommand (dropSpaces text) ∨
      ∃ body back, dropSpaces text = '/' :: '*' :: (body ++ '*' :: '/' :: back) ∧
        startsCommand (dropSpaces back) := by
  unfold isPutGetCommand
  rw [putGetRegex_iff]
  constructor
  · rintro ⟨mid, rest, hblocks, hruns, hcommand⟩
    have hrest : dropSpaces mid = rest := by
      rw [← dropSpaces_of_runs hruns, dropSpaces_of_command hcommand]
    rcases commented_of_blocks hblocks with rfl | ⟨body, back, htext, hback⟩
    · exact .inl (hrest ▸ hcommand)
    · exact .inr ⟨body, back, htext, hback ▸ hrest ▸ hcommand⟩
  · rintro (hcommand | ⟨body, back, htext, hcommand⟩)
    · exact ⟨text, _, .refl, .single (spaces_dropSpaces text), hcommand⟩
    · refine ⟨dropSpaces back, _, .single ?_, .refl, hcommand⟩
      refine begins_mul.2 ⟨_, spaces_dropSpaces text, begins_mul.2 ⟨back, ?_, ?_⟩⟩
      · exact begins_comment.2 ⟨body, htext⟩
      · exact spaces_dropSpaces back

end Pattern

/-! ## Against the scanner -/

/-- Some end of a comment has a command after it. -/
def CommandAfterClose (text : List Char) : Prop :=
  ∃ front back, text = front ++ '*' :: '/' :: back ∧ startsCommand (dropSpaces back)

section Scanner

variable {text rest : List Char}

theorem CommandAfterClose.append (h : CommandAfterClose rest) (front : List Char) :
    CommandAfterClose (front ++ rest) := by
  obtain ⟨body, back, rfl, hcommand⟩ := h
  exact ⟨front ++ body, back, (List.append_assoc _ _ _).symm, hcommand⟩

/-- The first end of a comment, or one after it. -/
theorem commandAfterClose_iff (text : List Char) :
    CommandAfterClose text ↔ ∃ rest, afterClose text = some rest ∧
      (startsCommand (dropSpaces rest) ∨ CommandAfterClose rest) := by
  constructor
  · rintro ⟨front, back, rfl, hcommand⟩
    induction front with
    | nil => exact ⟨back, rfl, .inl hcommand⟩
    | cons c front ih =>
      rw [List.cons_append]
      unfold afterClose
      split
      next rest hrest =>
        -- the first end is here; the one with the command is in what follows
        refine ⟨rest, rfl, .inr ?_⟩
        cases front with
        | nil => cases hrest
        | cons d front =>
          cases hrest
          exact ⟨front, back, rfl, hcommand⟩
      next => exact ih
  · rintro ⟨rest, hrest, hcommand⟩
    obtain ⟨body, rfl⟩ := afterClose_eq_some hrest
    rcases hcommand with hcommand | hcommand
    · exact ⟨body, rest, rfl, hcommand⟩
    · have happend := hcommand.append (body ++ ['*', '/'])
      rwa [List.append_assoc] at happend

theorem not_startsCommand_slash (text : List Char) : ¬startsCommand ('/' :: text) := by
  intro h
  obtain ⟨a, rest, htext, hletter⟩ := startsCommand_head h
  obtain ⟨rfl, -⟩ := List.cons.inj htext
  exact absurd hletter (by decide)

/-- A command is no comment. -/
theorem afterComment_of_command (h : startsCommand (dropSpaces text)) :
    afterComment text = none := by
  unfold afterComment
  split
  next body hbody =>
    rw [hbody] at h
    exact absurd h (not_startsCommand_slash _)
  next => rfl

theorem afterComments_of_command (h : startsCommand (dropSpaces text)) :
    afterComments text = dropSpaces text := afterComments_none (afterComment_of_command h)

theorem isPutGetCommand_iff_afterComment (text : List Char) :
    isPutGetCommand text ↔ startsCommand (dropSpaces text) ∨
      ∃ rest, afterComment text = some rest ∧
        (startsCommand (dropSpaces rest) ∨ CommandAfterClose rest) := by
  rw [isPutGetCommand_iff]
  apply or_congr Iff.rfl
  unfold afterComment
  split
  next inner hinner =>
    rw [← commandAfterClose_iff]
    constructor
    · rintro ⟨body, back, heq, hcommand⟩
      rw [hinner] at heq
      cases heq
      exact ⟨body, back, rfl, hcommand⟩
    · rintro ⟨body, back, rfl, hcommand⟩
      exact ⟨body, back, hinner, hcommand⟩
  next hno =>
    constructor
    · rintro ⟨body, back, heq, -⟩
      exact absurd heq (hno _)
    · rintro ⟨_, hnone, -⟩
      cases hnone

/-- What the scanner finds is after spaces, or after the end of a comment. -/
theorem command_after_close (text : List Char) (h : startsCommand (afterComments text)) :
    startsCommand (dropSpaces text) ∨ CommandAfterClose text := by
  cases hcomment : afterComment text with
  | none =>
    rw [afterComments_none hcomment] at h
    exact .inl h
  | some rest =>
    rw [afterComments_some hcomment] at h
    obtain ⟨body, hbody⟩ := afterComment_eq_some hcomment
    obtain ⟨blanks, hblanks⟩ := eq_append_dropSpaces text
    rw [hbody] at hblanks
    right
    rw [hblanks]
    rcases command_after_close rest h with hcommand | hcommand
    · exact ⟨blanks ++ '/' :: '*' :: body, rest, by simp, hcommand⟩
    · have happend := hcommand.append (blanks ++ '/' :: '*' :: (body ++ ['*', '/']))
      simpa using happend
termination_by text.length
decreasing_by exact afterComment_length hcomment

end Scanner

/-- The text begins with a comment, what is after it is no command for the scanner, and the end of
another comment has a command after it. -/
def Misread (text : List Char) : Prop :=
  ∃ rest, afterComment text = some rest ∧ ¬startsCommand (afterComments rest) ∧
    CommandAfterClose rest

/-- The pattern finds a command where the scanner does, but for the texts that are misread. -/
theorem put_get_command_iff (text : List Char) :
    (isPutGetCommand text ↔ startsCommand (afterComments text)) ↔ ¬Misread text := by
  rw [isPutGetCommand_iff_afterComment]
  unfold Misread
  cases hcomment : afterComment text with
  | none =>
    rw [afterComments_none hcomment]
    simp
  | some rest =>
    have hno : ¬startsCommand (dropSpaces text) := fun h => by
      rw [afterComment_of_command h] at hcomment
      cases hcomment
    have hfound := command_after_close rest
    have hfirst : startsCommand (dropSpaces rest) → startsCommand (afterComments rest) := by
      intro h
      rwa [afterComments_of_command h]
    rw [afterComments_some hcomment]
    simp only [Option.some.injEq, exists_eq_left']
    tauto

/-- A statement that selects, between two comments. -/
def selectThenPut : List Char := "/* a */ select 1 /* b */ put x".toList

theorem select_taken_for_put :
    isPutGetCommand selectThenPut = true ∧
      afterComments selectThenPut = "select 1 /* b */ put x".toList ∧
      startsCommand (afterComments selectThenPut) = false := by
  have hfirst : afterComment selectThenPut = some " select 1 /* b */ put x".toList := by decide
  have hrest : afterComments selectThenPut = "select 1 /* b */ put x".toList := by
    rw [afterComments_some hfirst, afterComments_none (by decide)]
    decide
  refine ⟨?_, hrest, ?_⟩
  · rw [isPutGetCommand_iff_afterComment]
    exact .inr ⟨_, hfirst, .inr ⟨" select 1 /* b ".toList, " put x".toList, by decide, by decide⟩⟩
  · rw [hrest]
    decide

end PutGetCommand

end Snowflake
