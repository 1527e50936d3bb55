import Locksmith.Text.Case

namespace Locksmith
namespace Wildcard

/-- Compares a text and a pattern, both reversed, until the text ends, only one character of the
pattern is left, or a star is met. Gives what remains of both, or nothing if a character
differs. -/
def trimReversed : (text pattern : List Char) → Option (List Char × List Char)
  | s :: text, p :: next :: pattern =>
    let escaped := ((next :: pattern).takeWhile (· == '\\')).length % 2 == 1
    if p == '*' && !escaped then some (s :: text, p :: next :: pattern)
    else if (p == '?' && !escaped) || p == s then
      trimReversed text (if escaped then pattern else next :: pattern)
    else none
  | text, pattern => some (text, pattern)

theorem trimReversed_length {text pattern text' pattern' : List Char}
    (h : trimReversed text pattern = some (text', pattern')) :
    text'.length ≤ text.length ∧ pattern'.length ≤ pattern.length := by
  fun_induction trimReversed text pattern with
  | case1 => simp_all
  | case2 s text p next pattern escaped _ _ ih =>
    have := ih h
    have : (if escaped then pattern else next :: pattern).length ≤ pattern.length + 1 := by
      split <;> simp
    simp only [List.length_cons]
    omega
  | case3 => simp at h
  | case4 => simp_all

/-- Compares the part of a pattern after its last open star with the end of a text. -/
def trimSuffix (text pattern : List Char) : Option (List Char × List Char) :=
  (trimReversed text.reverse pattern.reverse).map fun (t, p) => (t.reverse, p.reverse)

theorem trimSuffix_length {text pattern text' pattern' : List Char}
    (h : trimSuffix text pattern = some (text', pattern')) :
    text'.length ≤ text.length ∧ pattern'.length ≤ pattern.length := by
  obtain ⟨⟨t, p⟩, ht, he⟩ := Option.map_eq_some_iff.1 h
  have := trimReversed_length ht
  simp only [Prod.mk.injEq] at he
  obtain ⟨rfl, rfl⟩ := he
  simpa using this

theorem trimSuffix_star_length {text tail text' rest' : List Char} {p : Char}
    (h : trimSuffix text ('*' :: tail.dropWhile (· == '*')) = some (text', p :: rest')) :
    text'.length ≤ text.length ∧ rest'.length ≤ tail.length := by
  have hs := trimSuffix_length h
  have hd := (List.dropWhile_sublist (l := tail) (· == '*')).length_le
  simp only [List.length_cons] at hs
  omega

/-- Whether a text matches a pattern, case included. -/
def matchChars (text pattern : List Char) : Bool :=
  match pattern with
  | [] => text.isEmpty
  | '*' :: tail =>
    if tail.all (· == '*') then true
    else
      match h : trimSuffix text ('*' :: tail.dropWhile (· == '*')) with
      | none => false
      | some (_, []) => false
      | some (text', p :: rest') =>
        have := trimSuffix_star_length h
        if rest'.isEmpty then true
        else
          matchChars text' rest' ||
            match text' with
            | [] => false
            | _ :: later => matchChars later (p :: rest')
  | '?' :: pattern' =>
    match text with
    | [] => false
    | _ :: text' => matchChars text' pattern'
  | '\\' :: pattern' =>
    match text, pattern' with
    | s :: text', p :: pattern'' => s == p && matchChars text' pattern''
    | _, _ => false
  | p :: pattern' =>
    match text with
    | [] => false
    | s :: text' => s == p && matchChars text' pattern'
termination_by (pattern.length, text.length)
decreasing_by
  all_goals
    simp only [List.length_cons, Prod.lex_def] at *
    omega

/-- Whether a value matches a pattern without regard to case: `*` stands for any run of
characters, `?` for any one, and a backslash takes the next character as it is. A backslash that
ends a pattern stands for itself after a star, where patterns are read backwards, and matches
nothing elsewhere. -/
def isMatch (pattern value : Bytes) : Bool :=
  let chars (s : Bytes) := (Utf8.decode s).map fun x => Case.lowerChar x.toChar
  matchChars (chars value) (chars pattern)

end Wildcard
end Locksmith
