import V2RootCore.Proof.Go.Escape
import V2RootCore.Proof.Go.Map

/-!
# Query strings

Encoding values and parsing the result gives the values back, sorted by key. As long as no key
occurs twice, `get` cannot tell the difference.
-/

namespace V2RootCore.Go.Url

namespace Values

theorem get_eq_of_perm {values values' : Values} (h : values.Distinct)
    (hperm : values'.Perm values) (key : Bytes) : values'.get key = values.get key := by
  rw [Values.get, Values.get, Map.lookup_eq_of_perm h hperm]

theorem encodePair_ne_nil (pair : Bytes × Bytes) : encodePair pair ≠ [] := by
  simp [encodePair]

theorem mem_encodePair {pair : Bytes × Bytes} {c : UInt8} (hc : c ∈ encodePair pair) :
    isQueryByte c = true ∨ c = 61 := by
  rw [encodePair, List.mem_append, List.mem_cons] at hc
  rcases hc with hkey | rfl | hvalue
  · exact Or.inl (isQueryByte_of_mem_queryEscape hkey)
  · exact Or.inr rfl
  · exact Or.inl (isQueryByte_of_mem_queryEscape hvalue)

theorem parsePair_encodePair (pair : Bytes × Bytes) : parsePair (encodePair pair) = some pair := by
  have hsemicolon : 59 ∉ encodePair pair := by
    intro hmem
    rcases mem_encodePair hmem with hquery | heq
    · exact absurd hquery (by decide)
    · exact absurd heq (by decide)
  have hequals : 61 ∉ queryEscape pair.1 := notMem_queryEscape (by decide) pair.1
  have hcut : cut 61 (encodePair pair) = (queryEscape pair.1, queryEscape pair.2) :=
    cut_append hequals _
  have hreads : reads .queryComponent .queryComponent = true := by decide
  rw [parsePair, if_neg (by simp [hsemicolon, encodePair_ne_nil]), hcut]
  simp only [queryUnescape, queryEscape, unescape_escape hreads]

/-- **Parsing undoes encoding.** -/
theorem parseQuery_encode (values : Values) :
    parseQuery values.encode = values.insertionSort fun a b => a.1 ≤ b.1 := by
  rw [parseQuery, encode]
  generalize (values.insertionSort fun a b => a.1 ≤ b.1) = sorted
  cases sorted with
  | nil => rfl
  | cons pair rest =>
      have hpieces : ∀ piece ∈ ((pair :: rest).map encodePair), (38 : UInt8) ∉ piece := by
        intro piece hpiece hmem
        obtain ⟨p, -, rfl⟩ := List.mem_map.mp hpiece
        rcases mem_encodePair hmem with hquery | heq
        · exact absurd hquery (by decide)
        · exact absurd heq (by decide)
      rw [List.splitOn_intercalate 38 hpieces (by simp), List.filterMap_map]
      have hall : parsePair ∘ encodePair = some := funext parsePair_encodePair
      rw [hall, List.filterMap_some]

theorem get_parseQuery_encode {values : Values} (h : values.Distinct) (key : Bytes) :
    (parseQuery values.encode).get key = values.get key := by
  rw [parseQuery_encode]
  exact get_eq_of_perm h (List.perm_insertionSort _ values) key

theorem mem_intercalate {sep c : UInt8} {pieces : List Bytes}
    (hc : c ∈ [sep].intercalate pieces) : c = sep ∨ ∃ piece ∈ pieces, c ∈ piece := by
  induction pieces with
  | nil => simp [List.intercalate] at hc
  | cons piece rest ih =>
      cases rest with
      | nil => exact Or.inr ⟨piece, List.mem_cons_self, by simpa [List.intercalate] using hc⟩
      | cons next rest =>
          rw [List.intercalate, List.intersperse_cons_cons, List.flatten_cons, List.flatten_cons,
            List.mem_append, List.mem_append, List.mem_singleton] at hc
          rcases hc with hpiece | hsep | hrest
          · exact Or.inr ⟨piece, List.mem_cons_self, hpiece⟩
          · exact Or.inl hsep
          · obtain hsep | ⟨found, hfound, hmem⟩ := ih hrest
            · exact Or.inl hsep
            · exact Or.inr ⟨found, List.mem_cons_of_mem _ hfound, hmem⟩

theorem mem_encode {values : Values} {c : UInt8} (hc : c ∈ values.encode) :
    isQueryByte c = true ∨ c = 61 ∨ c = 38 := by
  obtain rfl | ⟨piece, hpiece, hmem⟩ := mem_intercalate hc
  · exact Or.inr (Or.inr rfl)
  · obtain ⟨pair, -, rfl⟩ := List.mem_map.mp hpiece
    exact (mem_encodePair hmem).imp id Or.inl

theorem encode_eq_nil_iff {values : Values} : values.encode = [] ↔ values = [] := by
  constructor
  · intro h
    have hsorted := parseQuery_encode values
    rw [h] at hsorted
    have hperm := List.perm_insertionSort (fun a b : Bytes × Bytes => a.1 ≤ b.1) values
    rw [← hsorted] at hperm
    exact (List.nil_perm.mp hperm)
  · rintro rfl
    rfl

end Values

end V2RootCore.Go.Url
