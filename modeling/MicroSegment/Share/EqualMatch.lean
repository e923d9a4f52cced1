import MicroSegment.Share.Criteria
import MicroSegment.Lib.Glob

/-!
# `EqualMatch` as a glob

`EqualMatch` turns a pattern with `?` or `*` into the regular expression `^…$`, writing `.` as
`\.`, `?` as `.` and `*` as `.*`, and hands it to Go's `regexp`. That engine is a parameter of the
model (`Regexp`); `Regexp.ReadsPlain` is what RE2's syntax fixes for the expressions this
translation makes from a pattern with no other RE2 metacharacter: an ordinary character and `\.`
match themselves, `.` one character other than a newline and `.*` a run of them, with `^` and `$`
anchoring at the ends of the text. Under it `EqualMatch` is the glob of its pattern, read with
wildcards that never match a newline (`equalMatch_glob`).
-/

namespace MicroSegment.Share

open Glob

def re2Special : List Char :=
  ['\\', '.', '+', '*', '?', '(', ')', '|', '[', ']', '{', '}', '^', '$']

def re2Plain : List Char → Option (List (Tok Char))
  | [] => some []
  | '\\' :: '.' :: rest => (re2Plain rest).map (.lit '.' :: ·)
  | '.' :: '*' :: rest => (re2Plain rest).map (.many :: ·)
  | '.' :: rest => (re2Plain rest).map (.one :: ·)
  | c :: rest => if c ∈ re2Special then none else (re2Plain rest).map (.lit c :: ·)

/-- Go's `regexp.Compile` follows RE2 on the anchored expressions of the fragment. -/
def Regexp.ReadsPlain (rx : Regexp) : Prop :=
  ∀ body toks, re2Plain body = some toks →
    rx.compile ("^" ++ String.ofList body ++ "$") =
      some fun value => globMatch (· != '\n') toks value.toList

def globTok (c : Char) : Tok Char :=
  if c = '?' then .one else if c = '*' then .many else .lit c

def globOf (pattern : List Char) : List (Tok Char) := pattern.map globTok

/-- A pattern whose only RE2 metacharacters are `.`, `?` and `*`. -/
def GlobText (pattern : List Char) : Prop :=
  ∀ c ∈ pattern, c ∈ re2Special → c = '.' ∨ c = '?' ∨ c = '*'

/-- Decided over the pattern's characters, not over all of `Char`. -/
instance : DecidablePred GlobText := fun pattern => List.decidableBAll _ pattern

/-- What the three replacements of `EqualMatch` make of one character. -/
def regexOfChar (c : Char) : List Char :=
  if c = '.' then ['\\', '.'] else if c = '?' then ['.'] else if c = '*' then ['.', '*'] else [c]

theorem equalMatch_translate (pattern : String) :
    (stringsReplaceAll (stringsReplaceAll (stringsReplaceAll pattern '.' "\\.") '?' ".") '*'
      ".*").toList = pattern.toList.flatMap regexOfChar := by
  unfold stringsReplaceAll
  simp only [String.toList_ofList, List.flatMap_assoc]
  congr 1
  funext c
  unfold regexOfChar
  split_ifs <;> simp_all

theorem re2Plain_dot {d : Char} (r : List Char) (other : d ≠ '*') :
    re2Plain ('.' :: d :: r) = (re2Plain (d :: r)).map (.one :: ·) := by
  rw [re2Plain.eq_4]
  rintro rest same
  exact other (List.cons.inj same).1

theorem re2Plain_ordinary {c : Char} (r : List Char) (plain : c ∉ re2Special) :
    re2Plain (c :: r) = (re2Plain r).map (.lit c :: ·) := by
  have special : ∀ d, d = c → d ∈ re2Special → False := fun d same mem => plain (same ▸ mem)
  rw [re2Plain.eq_5 c r (fun _ back _ => special _ back.symm (by decide))
    (fun _ dot _ => special _ dot.symm (by decide)) (fun dot => special _ dot.symm (by decide)),
    if_neg plain]

theorem regexOfChar_head (c : Char) : ∃ d r, regexOfChar c = d :: r ∧ d ≠ '*' := by
  unfold regexOfChar
  split_ifs with dot one many
  · exact ⟨_, _, rfl, by decide⟩
  · exact ⟨_, _, rfl, by decide⟩
  · exact ⟨_, _, rfl, by decide⟩
  · exact ⟨_, _, rfl, many⟩

theorem head_flatMap_regexOfChar (pattern : List Char) :
    (pattern.flatMap regexOfChar).head? ≠ some '*' := by
  cases pattern with
  | nil => simp
  | cons c pattern =>
    obtain ⟨d, r, translated, other⟩ := regexOfChar_head c
    rw [List.flatMap_cons, translated, List.cons_append, List.head?_cons]
    exact fun same => other (Option.some.inj same)

theorem re2Plain_regexOfChar {c : Char} (text : c ∈ re2Special → c = '.' ∨ c = '?' ∨ c = '*')
    {rest : List Char} (next : rest.head? ≠ some '*') :
    re2Plain (regexOfChar c ++ rest) = (re2Plain rest).map (globTok c :: ·) := by
  by_cases dot : c = '.'
  · subst dot
    exact re2Plain.eq_2 rest
  by_cases one : c = '?'
  · subst one
    cases rest with
    | nil => rfl
    | cons d r => exact re2Plain_dot r fun star => next (by rw [star]; rfl)
  by_cases many : c = '*'
  · subst many
    exact re2Plain.eq_3 rest
  have plain : c ∉ re2Special := fun mem => by
    rcases text mem with same | same | same <;> contradiction
  unfold regexOfChar globTok
  rw [if_neg dot, if_neg one, if_neg many, if_neg one, if_neg many, List.singleton_append,
    re2Plain_ordinary _ plain]

theorem re2Plain_translate {pattern : List Char} (text : GlobText pattern) :
    re2Plain (pattern.flatMap regexOfChar) = some (globOf pattern) := by
  induction pattern with
  | nil => rfl
  | cons c pattern ih =>
    have rest := ih fun d mem => text d (List.mem_cons_of_mem c mem)
    rw [List.flatMap_cons, re2Plain_regexOfChar (text c List.mem_cons_self)
      (head_flatMap_regexOfChar pattern), rest]
    rfl

/-! ### `EqualMatch` -/

theorem stringsContainsAny_wildcards_eq_false {pattern : String} :
    stringsContainsAny pattern "?*" = false ↔ '?' ∉ pattern.toList ∧ '*' ∉ pattern.toList := by
  unfold stringsContainsAny
  simp only [List.any_eq_false]
  constructor
  · intro none
    exact ⟨fun mem => none _ mem (by decide), fun mem => none _ mem (by decide)⟩
  · rintro ⟨noOne, noMany⟩ c mem wild
    have either : c = '?' ∨ c = '*' := by simpa using wild
    rcases either with rfl | rfl
    · exact noOne mem
    · exact noMany mem

theorem globOf_of_no_wildcard {pattern : List Char} (noOne : '?' ∉ pattern)
    (noMany : '*' ∉ pattern) : globOf pattern = pattern.map .lit := by
  unfold globOf
  apply List.map_congr_left
  intro c mem
  unfold globTok
  rw [if_neg (fun same : c = '?' => noOne (same ▸ mem)),
    if_neg (fun same : c = '*' => noMany (same ▸ mem))]

theorem equalMatch_of_no_wildcard (rx : Regexp) {pattern : String} (value : String)
    (none : stringsContainsAny pattern "?*" = false) :
    equalMatch rx pattern value = (pattern == value) := by
  unfold equalMatch
  rw [if_pos (by rw [none]; rfl)]

theorem equalMatch_of_wildcard {rx : Regexp} (reads : rx.ReadsPlain) {pattern : String}
    (value : String) (text : GlobText pattern.toList) (wild : stringsContainsAny pattern "?*" = true) :
    equalMatch rx pattern value = globMatch (· != '\n') (globOf pattern.toList) value.toList := by
  unfold equalMatch
  rw [if_neg (by rw [wild]; decide)]
  dsimp only
  have translated : stringsReplaceAll (stringsReplaceAll (stringsReplaceAll pattern '.' "\\.") '?' ".")
      '*' ".*" = String.ofList (pattern.toList.flatMap regexOfChar) := by
    rw [← equalMatch_translate, String.ofList_toList]
  rw [translated, reads _ _ (re2Plain_translate text)]

theorem globMatch_newline_iff (toks : List (Tok Char)) (value : List Char) :
    globMatch (· != '\n') toks value = true ↔ value ∈ lang (· ≠ '\n') toks := by
  rw [globMatch_iff]
  simp only [bne_iff_ne, ne_eq]

theorem equalMatch_glob (rx : Regexp) (reads : rx.ReadsPlain) :
    (∀ pattern value : String, GlobText pattern.toList →
      (equalMatch rx pattern value = true ↔
        value.toList ∈ lang (· ≠ '\n') (globOf pattern.toList))) ∧
    (∀ pattern value : String, '?' ∉ pattern.toList → '*' ∉ pattern.toList →
      (equalMatch rx pattern value = true ↔ pattern = value)) := by
  -- without a wildcard `EqualMatch` compares, whatever the pattern
  have equality : ∀ pattern value : String, '?' ∉ pattern.toList → '*' ∉ pattern.toList →
      (equalMatch rx pattern value = true ↔ pattern = value) := by
    intro pattern value noOne noMany
    rw [equalMatch_of_no_wildcard rx value
      (stringsContainsAny_wildcards_eq_false.mpr ⟨noOne, noMany⟩), beq_iff_eq]
  refine ⟨fun pattern value text => ?_, equality⟩
  cases wild : stringsContainsAny pattern "?*" with
  | false =>
    obtain ⟨noOne, noMany⟩ := stringsContainsAny_wildcards_eq_false.mp wild
    rw [equality pattern value noOne noMany, globOf_of_no_wildcard noOne noMany, mem_lang_map_lit,
      ← String.toList_inj]
    exact eq_comm
  | true => rw [equalMatch_of_wildcard reads value text wild, globMatch_newline_iff]

/-- A compiler for the fragment alone: it reads `^body$` as `ReadsPlain` says and compiles
nothing else. -/
def plainRegexp : Regexp where
  compile re :=
    match re.toList with
    | '^' :: rest =>
      if rest.getLast? = some '$' then
        (re2Plain rest.dropLast).map fun toks value => globMatch (· != '\n') toks value.toList
      else none
    | _ => none

theorem plainRegexp_readsPlain : plainRegexp.ReadsPlain := by
  intro body toks parsed
  have text : ("^" ++ String.ofList body ++ "$").toList = '^' :: (body ++ ['$']) := by simp
  unfold plainRegexp
  dsimp only
  rw [text]
  simp [parsed]

theorem equalMatch_glob_image :
    plainRegexp.ReadsPlain ∧ equalMatch plainRegexp "nginx:1.*" "nginx:1.25" = true :=
  ⟨plainRegexp_readsPlain,
    ((equalMatch_glob plainRegexp plainRegexp_readsPlain).1 _ _ (by decide)).mpr
      ((globMatch_newline_iff _ _).mp (by decide))⟩

/-- `?` does not match a newline under any engine that reads the fragment as RE2 does, while the
glob of the pattern, with `?` matching every character, does. -/
theorem equalMatch_newline :
    (∀ rx : Regexp, rx.ReadsPlain → equalMatch rx "?" "\n" = false) ∧
      "\n".toList ∈ lang (fun _ => True) (globOf "?".toList) := by
  refine ⟨fun rx reads => ?_, ?_⟩
  · rw [equalMatch_of_wildcard reads _ (by decide) (by decide)]
    decide
  · show ['\n'] ∈ lang _ [.one]
    exact cons_mem_lang_one.mpr ⟨trivial, rfl⟩

end MicroSegment.Share
