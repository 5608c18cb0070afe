import Mathlib.Computability.Language

/-!
# Words of one letter

The letters that satisfy a condition are a language, and other languages are put together of such.
-/

namespace LinOpt

open Computability

variable {γ : Type} {p : γ → Bool}

/-- The words of one letter that satisfies `p`. -/
def letter (p : γ → Bool) : Language γ := {word | ∃ c, p c = true ∧ word = [c]}

theorem mem_letter {word : List γ} : word ∈ letter p ↔ ∃ c, p c = true ∧ word = [c] := Iff.rfl

theorem mem_kstar_letter {word : List γ} :
    word ∈ (letter p)∗ ↔ ∀ c ∈ word, p c = true := by
  rw [Language.mem_kstar]
  constructor
  · rintro ⟨parts, rfl, each⟩ c member
    obtain ⟨part, among, inside⟩ := List.mem_flatten.mp member
    obtain ⟨_, holds, rfl⟩ := each part among
    rwa [List.mem_singleton.mp inside]
  · intro all
    refine ⟨word.map ([·]), (List.flatMap_singleton' word).symm, fun part member => ?_⟩
    obtain ⟨c, inside, rfl⟩ := List.mem_map.mp member
    exact ⟨c, all c inside, rfl⟩

theorem mem_letter_mul {word : List γ} {language : Language γ} :
    word ∈ letter p * language ↔ ∃ c rest, word = c :: rest ∧ p c = true ∧ rest ∈ language := by
  rw [Language.mem_mul]
  constructor
  · rintro ⟨_, ⟨c, holds, rfl⟩, rest, member, rfl⟩
    exact ⟨c, rest, rfl, holds, member⟩
  · rintro ⟨c, rest, rfl, holds, member⟩
    exact ⟨[c], ⟨c, holds, rfl⟩, rest, member, rfl⟩

theorem cons_mem_letter_mul {c : γ} {word : List γ} {language : Language γ} :
    c :: word ∈ letter p * language ↔ p c = true ∧ word ∈ language := by
  rw [mem_letter_mul]
  constructor
  · rintro ⟨_, _, same, holds, member⟩
    cases same
    exact ⟨holds, member⟩
  · rintro ⟨holds, member⟩
    exact ⟨c, word, rfl, holds, member⟩

end LinOpt
