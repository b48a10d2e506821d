import GuardedSearch.Proofs.QueryForms
import GuardedSearch.Proofs.ResultForms

/-!
# Forms that lose nothing

A query, a request, a document and a set of results are read back as they were from what is
written of them, and what is read of any text, in whichever of its spellings, is read again from
what is written of it (`forms_lossless`).
-/

namespace GuardedSearch

variable {α : Type}

namespace Json

/-- The value that a text spells. -/
def ofText? (read : Json → Option α) (text : String) : Option α := (parse? text).bind read

/-- Writing and reading lose nothing of the values whose dates, if any, have a form that is read. -/
structure Lossless (read : Json → Option α) (write : α → Json) (Fits Dated : α → Prop) : Prop where
  /-- A value that fits its reader is read back from its text. -/
  written : ∀ a, Fits a → Dated a → ofText? read (write a).toText = some a
  /-- A value that any text spells is read back from its own text. -/
  reread : ∀ text a, ofText? read text = some a → Dated a → ofText? read (write a).toText = some a

/-- Nothing is lost between texts if nothing is lost between their values. -/
theorem Lossless.of_values {read : Json → Option α} {write : α → Json} {Fits Dated : α → Prop}
    (plain : ∀ a, (write a).IsPlain) (fits : ∀ j a, read j = some a → Fits a)
    (reads : ∀ a, Fits a → Dated a → read (write a) = some a) : Lossless read write Fits Dated := by
  have hwritten (a : α) (hfits : Fits a) (hdated : Dated a) :
      ofText? read (write a).toText = some a := by
    rw [ofText?, parse?_toText (plain a), Option.bind_some, reads a hfits hdated]
  refine ⟨hwritten, fun text a hread hdated => hwritten a ?_ hdated⟩
  obtain ⟨j, -, hj⟩ := Option.bind_eq_some_iff.mp hread
  exact fits j a hj

end Json

/-- No value of a query, a request, a document or a set of results is lost in writing and reading
it: of any nesting that a reader follows, with any strings and counts of their types, and with any
dates in years of four digits. -/
theorem forms_lossless :
    Json.Lossless Query.ofJson? Query.toJson
      (fun q => q.IsSized ∧ q.toJson.depth ≤ Query.deepest) (fun _ => True) ∧
    Json.Lossless SearchRequest.ofJson? SearchRequest.toJson
      (fun r => r.IsSized ∧ r.toJson.depth ≤ Query.deepest) (fun _ => True) ∧
    Json.Lossless Document.ofJson? Document.toJson
      (fun _ => True) (fun d => HaveFourDigitYears d.fields) ∧
    Json.Lossless ResultSet.ofJson? ResultSet.toJson
      ResultSet.IsSized ResultSet.HasFourDigitYears := by
  refine ⟨.of_values Query.toJson_isPlain ?_ ?_, .of_values SearchRequest.toJson_isPlain ?_ ?_,
    .of_values Document.toJson_isPlain ?_ ?_, .of_values ResultSet.toJson_isPlain ?_ ?_⟩
  · exact fun j q hread => Query.fits_of_ofJsonWithin? hread
  · exact fun q hfits _ => Query.ofJsonWithin?_toJson hfits.1 hfits.2
  · exact fun j r hread => SearchRequest.fits_of_ofJson? hread
  · exact fun r hfits _ => SearchRequest.ofJson?_toJson hfits.1 hfits.2
  · exact fun _ _ _ => trivial
  · exact fun d _ hdated => Document.ofJson?_toJson hdated
  · exact fun j r hread => ResultSet.isSized_of_ofJson? hread
  · exact fun r hsized hdated => ResultSet.ofJson?_toJson hsized hdated

/-- A request as an array, with a key that no reader knows, an operator as an object and a name
twice. -/
def respelledRequest : String :=
  "[\x7b\"Or\":[\x7b\"TypeTerm\":
    \x7b\"operator\":\x7b\"IsA\":null\x7d,\"type_name\":\"t\",\"page\":0\x7d\x7d]\x7d,
    10,0,[[]],\x7b\"Named\":[\"b\",\"a\",\"b\"]\x7d]"

/-- A document as an array, with a key twice and a leap second in another time zone. -/
def respelledDocument : String :=
  "[\x7b\"created\":[\x7b\"Int32\":7\x7d],
    \"created\":[\x7b\"Date\":\"2017-01-01T00:59:60.5+01:00\"\x7d]\x7d]"

theorem forms_lossless_respelled :
    (∃ r, Json.ofText? SearchRequest.ofJson? respelledRequest = some r ∧
      Json.ofText? SearchRequest.ofJson? r.toJson.toText = some r) ∧
    ∃ d, Json.ofText? Document.ofJson? respelledDocument = some d ∧
      Json.ofText? Document.ofJson? d.toJson.toText = some d := by
  obtain ⟨-, hrequests, hdocuments, -⟩ := forms_lossless
  constructor
  · have hread : (Json.ofText? SearchRequest.ofJson? respelledRequest).isSome = true := by
      decide +kernel
    obtain ⟨r, hr⟩ := Option.isSome_iff_exists.mp hread
    exact ⟨r, hr, hrequests.reread _ r hr trivial⟩
  · have hread : ∃ d ∈ Json.ofText? Document.ofJson? respelledDocument,
        HaveFourDigitYears d.fields := by
      decide +kernel
    obtain ⟨d, hd, hdated⟩ := hread
    exact ⟨d, hd, hdocuments.reread _ d hd hdated⟩

end GuardedSearch
