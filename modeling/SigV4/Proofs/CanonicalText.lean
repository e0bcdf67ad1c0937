import SigV4.Canonical
import SigV4.Proofs.HeaderText
/-!
Canonical requests are read back from their texts. A field ends at the first line feed, since no
field but the payload hash can hold one; the header lines end at the first empty line, since every
one of them starts with a name. Two requests of one text therefore agree in all that is signed.
-/
namespace SigV4.Canonical

def headerLine (header : HeaderName × String) : Bytes :=
  Bytes.ofText header.1.text ++ ':'.toUInt8 :: Bytes.ofText header.2

def headerBlock (headers : List (HeaderName × String)) : Bytes :=
  (headers.map headerLine).flatMap (· ++ ['\n'.toUInt8])

/-- No field in front of the payload hash ends its line early. -/
structure Plain (canonical : Canonical) : Prop where
  method : '\n'.toUInt8 ∉ Bytes.ofText canonical.method
  path : '\n'.toUInt8 ∉ Bytes.ofText canonical.path
  query : '\n'.toUInt8 ∉ Bytes.ofText canonical.query
  values : ∀ header ∈ canonical.headers, '\n'.toUInt8 ∉ Bytes.ofText header.2

theorem ofText_text (canonical : Canonical) :
    Bytes.ofText canonical.text = Bytes.ofText canonical.method ++ '\n'.toUInt8 ::
      (Bytes.ofText canonical.path ++ '\n'.toUInt8 ::
        (Bytes.ofText canonical.query ++ '\n'.toUInt8 ::
          (headerBlock canonical.headers ++ '\n'.toUInt8 ::
            (Bytes.ofText canonical.signedHeaders ++ '\n'.toUInt8 ::
              Bytes.ofText canonical.payloadHash)))) := by
  have separator : Bytes.ofText "\n" = ['\n'.toUInt8] := rfl
  have colon : Bytes.ofText ":" = [':'.toUInt8] := rfl
  have blank : Bytes.ofText "" = [] := rfl
  have block : canonical.headerLines.map Bytes.ofText = canonical.headers.map headerLine := by
    rw [headerLines, List.map_map]
    apply List.map_congr_left
    intro header _
    simp [headerLine, colon]
  rw [text, Bytes.ofText_intercalate, separator, lines, List.map_append, List.map_append, block]
  simp only [List.map_cons, List.map_nil, List.cons_append, List.nil_append]
  rw [Form.intercalate_cons _ _ (by simp), Form.intercalate_cons _ _ (by simp),
    Form.intercalate_cons _ _ (by simp), Form.intercalate_append _ _ (by simp),
    Form.intercalate_cons _ _ (by simp), Form.intercalate_cons _ _ (by simp),
    List.intercalate_singleton, blank, List.nil_append, headerBlock]

theorem headerBlock_cons (first : HeaderName × String) (rest : List (HeaderName × String))
    (tail : Bytes) :
    headerBlock (first :: rest) ++ tail =
      Bytes.ofText first.1.text ++ ':'.toUInt8 ::
        (Bytes.ofText first.2 ++ '\n'.toUInt8 :: (headerBlock rest ++ tail)) := by
  simp [headerBlock, headerLine]

-- A name holds no line feed and has an octet at least, so no header line is the empty line.
theorem headerBlock_cons_ne (first : HeaderName × String) (rest : List (HeaderName × String))
    (tail other : Bytes) : headerBlock (first :: rest) ++ tail ≠ '\n'.toUInt8 :: other := by
  intro same
  rw [headerBlock_cons] at same
  cases spelled : Bytes.ofText first.1.text with
  | nil => exact first.1.octets_ne_nil spelled
  | cons octet more =>
      rw [spelled, List.cons_append] at same
      have lineFeed : '\n'.toUInt8 ∈ Bytes.ofText first.1.text := by
        rw [spelled, (List.cons.inj same).1]
        exact List.mem_cons_self
      exact HeaderName.not_mem_text rfl first.1 lineFeed

theorem headerBlock_unique {left right : List (HeaderName × String)} {rest tail : Bytes}
    (leftPlain : ∀ header ∈ left, '\n'.toUInt8 ∉ Bytes.ofText header.2)
    (rightPlain : ∀ header ∈ right, '\n'.toUInt8 ∉ Bytes.ofText header.2)
    (same : headerBlock left ++ '\n'.toUInt8 :: rest =
      headerBlock right ++ '\n'.toUInt8 :: tail) : left = right ∧ rest = tail := by
  induction left generalizing right with
  | nil =>
      cases right with
      | nil => exact ⟨rfl, (List.cons.inj same).2⟩
      | cons second others => exact absurd same.symm (headerBlock_cons_ne second others _ rest)
  | cons first others ih =>
      cases right with
      | nil => exact absurd same (headerBlock_cons_ne first others _ tail)
      | cons second more =>
          rw [headerBlock_cons, headerBlock_cons] at same
          obtain ⟨names, same⟩ := Form.field_unique (HeaderName.not_mem_text rfl first.1)
            (HeaderName.not_mem_text rfl second.1) same
          obtain ⟨values, same⟩ := Form.field_unique (leftPlain first List.mem_cons_self)
            (rightPlain second List.mem_cons_self) same
          obtain ⟨headers, ends⟩ := ih
            (fun header member => leftPlain header (List.mem_cons_of_mem first member))
            (fun header member => rightPlain header (List.mem_cons_of_mem second member)) same
          have heads : first = second := Prod.ext
            (HeaderName.ext_text (Bytes.ofText_injective names)) (Bytes.ofText_injective values)
          exact ⟨by rw [heads, headers], ends⟩

/-- The text of a plain canonical request determines all of its fields. The payload hash comes
last and may be any text. -/
theorem text_injective {left right : Canonical} (leftPlain : left.Plain) (rightPlain : right.Plain)
    (same : left.text = right.text) : left = right := by
  have octets := congrArg Bytes.ofText same
  rw [ofText_text, ofText_text] at octets
  obtain ⟨methods, octets⟩ := Form.field_unique leftPlain.method rightPlain.method octets
  obtain ⟨paths, octets⟩ := Form.field_unique leftPlain.path rightPlain.path octets
  obtain ⟨queries, octets⟩ := Form.field_unique leftPlain.query rightPlain.query octets
  obtain ⟨headers, octets⟩ := headerBlock_unique leftPlain.values rightPlain.values octets
  rw [signedHeaders, signedHeaders, headers] at octets
  have hashes := (List.cons.inj (List.append_cancel_left octets)).2
  cases left
  cases right
  simp only [mk.injEq]
  exact ⟨Bytes.ofText_injective methods, Bytes.ofText_injective paths,
    Bytes.ofText_injective queries, headers, Bytes.ofText_injective hashes⟩

end SigV4.Canonical
