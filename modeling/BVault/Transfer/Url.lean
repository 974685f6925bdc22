import BVault.Lib.Percent

/-!
# The address of a file

`reconcile_export` puts the path of an entry into a URL as it is; the server
takes it out again at the route `/exports/{id}/files/{*path}`.
-/

namespace BVault.Transfer

open Percent

/-- `file_url` of an entry. -/
def fileUrl (baseUrl exportId usbPath : String) : String :=
  baseUrl ++ "/exports/" ++ exportId ++ "/files/" ++ usbPath

/-- What the route of an export's files takes out of a URL of the server; a path that is empty
does not match. -/
def filePath (baseUrl exportId url : String) : Option String :=
  let route := (baseUrl ++ "/exports/" ++ exportId ++ "/files/").toList
  if route <+: url.toList then
    let path := url.toList.drop route.length
    if beforeQuery path = [] then none else read (String.ofList path)
  else none

theorem filePath_fileUrl (baseUrl exportId usbPath : String) :
    filePath baseUrl exportId (fileUrl baseUrl exportId usbPath) =
      if beforeQuery usbPath.toList = [] then none else read usbPath := by
  unfold filePath fileUrl
  have fits := List.prefix_append (baseUrl ++ "/exports/" ++ exportId ++ "/files/").toList
    usbPath.toList
  rw [String.toList_append (s := _ ++ "/files/")]
  dsimp only
  rw [if_pos fits, List.drop_left, String.ofList_toList]

/-- The server gets the path that the client meant exactly when a URL carries it. -/
theorem filePath_iff {baseUrl exportId usbPath : String} (nonempty : usbPath ≠ "") :
    filePath baseUrl exportId (fileUrl baseUrl exportId usbPath) = some usbPath ↔
      Carried usbPath := by
  rw [filePath_fileUrl, ← read_iff]
  constructor
  · intro taken
    split at taken
    · cases taken
    · exact taken
  · intro carried
    rw [if_neg]
    · exact carried
    · intro nothing
      obtain ⟨query, fragment, _⟩ := read_iff.mp carried
      have whole := beforeQuery_eq_self_iff.mpr ⟨query, fragment⟩
      rw [nothing] at whole
      exact nonempty (String.toList_eq_nil_iff.mp whole.symm)

end BVault.Transfer
