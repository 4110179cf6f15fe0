import ScopedRename.Token

/-! Where the words of a text stand: the way from word positions to tokens, spans and byte offsets. -/

namespace ScopedRename

namespace Token

/-- The words of a token list: what is left without blanks and comments. -/
def words (tokens : List Token) : List Lexeme :=
  (tokens.filter fun token => !token.kind.isTrivia).map (·.toLexeme)

/-- The indices of the words among the tokens. -/
def wordIndices (tokens : List Token) : List Nat :=
  (tokens.zipIdx.filter fun token => !token.1.kind.isTrivia).map (·.2)

theorem wordIndices_sublist (tokens : List Token) : (wordIndices tokens).Sublist (List.range tokens.length) := by
  have numbers : tokens.zipIdx.map (·.2) = List.range tokens.length := by
    rw [List.zipIdx_map_snd, List.range_eq_range']
  exact numbers ▸ List.filter_sublist.map _

end Token

/-- Tokens, with the indices of those that are words in their order. -/
structure Layout where
  tokens : Array Token
  indices : Array Nat
  inside : ∀ index ∈ indices.toList, index < tokens.size
  ascending : indices.toList.Pairwise (· < ·)
deriving DecidableEq, Repr

namespace Layout

def ofTokens (tokens : List Token) : Layout where
  tokens := tokens.toArray
  indices := (Token.wordIndices tokens).toArray
  inside _ listed := List.mem_range.mp ((Token.wordIndices_sublist tokens).subset listed)
  ascending := List.pairwise_lt_range.sublist (Token.wordIndices_sublist tokens)

variable (layout : Layout)

/-- Number of words. -/
def size : Nat := layout.indices.size

/-- End of the text. -/
def stop : Nat := layout.tokens.back?.elim 0 (·.span.stop)

/-- Token index of the word at a position; past the words, an index past the tokens. -/
def tokenIndex (position : Nat) : Nat := layout.indices.getD position (layout.tokens.size + position)

def token? (position : Nat) : Option Token := (layout.indices[position]?).bind (layout.tokens[·]?)

def word? (position : Nat) : Option Lexeme := (layout.token? position).map (·.toLexeme)

def words : List Lexeme := layout.indices.toList.filterMap fun index => (layout.tokens[index]?).map (·.toLexeme)

/-- Span of the word at a position; past the words, an empty one past the text. -/
def span (position : Nat) : Span :=
  (layout.token? position).elim ⟨layout.stop + position, layout.stop + position⟩ (·.span)

end Layout

end ScopedRename
