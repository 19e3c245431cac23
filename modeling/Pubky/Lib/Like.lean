import Mathlib.Data.List.Infix
import Pubky.Lib.Text

/-!
# SQL patterns

The operator `LIKE` with `\` as escape character, and how a literal text is written in a
pattern: `like_escape` says that an escaped text stands for itself.
-/

namespace Like

/-- A unit of a pattern. -/
inductive Token where
  | literal (c : Char)
  | anyChar
  | anyText
  deriving DecidableEq

/-- `%` stands for any text, `_` for any character, and the character after `\` for itself. -/
def tokens : Text → List Token
  | [] => []
  | '\\' :: c :: pattern => .literal c :: tokens pattern
  | '%' :: pattern => .anyText :: tokens pattern
  | '_' :: pattern => .anyChar :: tokens pattern
  | c :: pattern => .literal c :: tokens pattern

def tokensMatch : List Token → Text → Bool
  | [], text => text.isEmpty
  | .anyText :: ts, text => text.tails.any (tokensMatch ts)
  | .anyChar :: ts, _ :: text => tokensMatch ts text
  | .literal a :: ts, c :: text => a = c && tokensMatch ts text
  | _ :: _, [] => false

/-- `text LIKE pattern` -/
def like (pattern text : Text) : Bool :=
  tokensMatch (tokens pattern) text

/-- `str::replace` of a character by a text. -/
def replaceChar (c : Char) (replacement : Text) (t : Text) : Text :=
  t.flatMap fun d => if d = c then replacement else [d]

/-- Write a text such that it stands for itself in a pattern. -/
def escape (t : Text) : Text :=
  replaceChar '%' ['\\', '%'] (replaceChar '_' ['\\', '_'] (replaceChar '\\' ['\\', '\\'] t))

theorem escape_append (t u : Text) : escape (t ++ u) = escape t ++ escape u := by
  simp only [escape, replaceChar, List.flatMap_append]

/-- A character is escaped, or it is not special. -/
theorem escape_singleton (c : Char) :
    escape [c] = ['\\', c] ∨ (escape [c] = [c] ∧ c ≠ '\\' ∧ c ≠ '%' ∧ c ≠ '_') := by
  by_cases h₁ : c = '\\'
  · subst h₁
    exact .inl (by decide)
  by_cases h₂ : c = '_'
  · subst h₂
    exact .inl (by decide)
  by_cases h₃ : c = '%'
  · subst h₃
    exact .inl (by decide)
  · exact .inr ⟨by simp [escape, replaceChar, h₁, h₂, h₃], h₁, h₃, h₂⟩

theorem tokens_escape_singleton (c : Char) (pattern : Text) :
    tokens (escape [c] ++ pattern) = .literal c :: tokens pattern := by
  rcases escape_singleton c with h | ⟨h, hback, hpercent, hunder⟩
  · rw [h]
    rfl
  · rw [h, List.singleton_append, tokens]
    · exact fun _ _ h _ => hback h
    · exact hpercent
    · exact hunder

theorem tokens_escape (t pattern : Text) :
    tokens (escape t ++ pattern) = t.map Token.literal ++ tokens pattern := by
  induction t with
  | nil => rfl
  | cons c t ih =>
    rw [← List.singleton_append, escape_append, List.append_assoc, tokens_escape_singleton, ih]
    rfl

theorem tokensMatch_literals (t : Text) (ts : List Token) (text : Text) :
    tokensMatch (t.map Token.literal ++ ts) text = true ↔
      ∃ rest, text = t ++ rest ∧ tokensMatch ts rest = true := by
  induction t generalizing text with
  | nil => simp
  | cons c t ih =>
    cases text with
    | nil => simp [tokensMatch]
    | cons d text =>
      simp only [List.map_cons, List.cons_append, tokensMatch, Bool.and_eq_true,
        decide_eq_true_eq, ih, List.cons.injEq]
      constructor
      · rintro ⟨rfl, rest, rfl, h⟩
        exact ⟨rest, ⟨rfl, rfl⟩, h⟩
      · rintro ⟨rest, ⟨rfl, rfl⟩, h⟩
        exact ⟨rfl, rest, rfl, h⟩

/-- An escaped text followed by `%` matches what starts with the text. -/
theorem like_escape (t text : Text) : like (escape t ++ ['%']) text = t.isPrefixOf text := by
  have hany : ∀ rest : Text, tokensMatch (tokens ['%']) rest = true := by
    intro rest
    refine List.any_eq_true.2 ⟨[], ?_, rfl⟩
    exact (List.mem_tails _ _).2 List.nil_suffix
  rw [Bool.eq_iff_iff, like, tokens_escape, tokensMatch_literals, List.isPrefixOf_iff_prefix]
  constructor
  · rintro ⟨rest, rfl, -⟩
    exact List.prefix_append _ _
  · rintro ⟨rest, rfl⟩
    exact ⟨rest, rfl, hany rest⟩

end Like
