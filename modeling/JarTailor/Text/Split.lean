/-!
# Texts cut at a separator

`split` cuts a text at every occurrence of a separator, so it always yields at least one piece,
and joining the pieces with the separator gives the text back.
-/

namespace JarTailor.Text

def pieces (separator : Char) : List Char → List (List Char)
  | [] => [[]]
  | c :: rest =>
      if c = separator then [] :: pieces separator rest
      else
        match pieces separator rest with
        | [] => [[c]]
        | piece :: others => (c :: piece) :: others

def split (separator : Char) (text : String) : List String :=
  (pieces separator text.toList).map String.ofList

theorem pieces_ne_nil (separator : Char) (text : List Char) : pieces separator text ≠ [] := by
  cases text with
  | nil => simp [pieces]
  | cons c rest =>
      simp only [pieces]
      split
      · simp
      · split <;> simp

/-- Joining the pieces with the separator undoes the cutting. -/
theorem intercalate_pieces (separator : Char) (text : List Char) :
    [separator].intercalate (pieces separator text) = text := by
  induction text with
  | nil => simp [pieces]
  | cons c rest ih =>
      obtain ⟨piece, others, h⟩ := List.exists_cons_of_ne_nil (pieces_ne_nil separator rest)
      rw [h] at ih
      simp only [pieces]
      split
      · next heq => rw [h, List.intercalate_cons_cons, ih]; simp [heq]
      · rw [h]
        cases others with
        | nil => simpa using ih
        | cons next others => simpa [List.intercalate_cons_cons] using ih

theorem intercalate_split (separator : Char) (text : String) :
    (String.singleton separator).intercalate (split separator text) = text := by
  apply String.toList_inj.1
  rw [String.toList_intercalate, split, List.map_map, String.toList_singleton]
  have hid : String.toList ∘ String.ofList = id := funext fun _ => String.toList_ofList
  rw [hid, List.map_id, intercalate_pieces]

end JarTailor.Text
