import Mathlib

/-!
# The hosts file

`etchosts.Add` and `etchosts.Delete` on the content of a hosts file.  `Add`
writes one line `IP\tHosts` per record after the content.  `Delete` reads the
content line by line as `bufio.Scanner` does, drops the empty lines, keeps the
comments, and drops every other line that ends with a tab and the hosts of a
record, whatever address the line starts with.
-/

namespace Libnetwork.Etchosts

structure Record where
  Hosts : String
  IP : String
  deriving DecidableEq, Repr

/-- `Record.WriteTo`: the line of the record. -/
def Record.WriteTo (r : Record) : List Char :=
  r.IP.toList ++ '\t' :: r.Hosts.toList ++ ['\n']

/-- `mergeRecords`: the content of the file, then the line of each record. -/
def mergeRecords (content : List Char) (recs : List Record) : List Char :=
  content ++ (recs.map Record.WriteTo).flatten

/-- `Add`: the file after adding the records. -/
def Add (content : List Char) (recs : List Record) : List Char :=
  if recs.isEmpty then content else mergeRecords content recs

/-- `dropCR`: a line without the carriage return before its newline. -/
def dropCR (line : List Char) : List Char :=
  if line.getLast? = some '\r' then line.dropLast else line

/-- The lines `bufio.ScanLines` gives: the text between newlines, without a
carriage return at its end; a last line without a newline counts only when
it is not empty. -/
def scanLines (content : List Char) : List (List Char) :=
  let pieces := content.splitOn '\n'
  let pieces := if pieces.getLast? = some [] then pieces.dropLast else pieces
  pieces.map dropCR

/-- `Delete`: the file after deleting the lines of the records. -/
def Delete (content : List Char) (recs : List Record) : List Char :=
  if recs.isEmpty then content
  else
    ((scanLines content).filterMap fun b =>
      if b.isEmpty then none
      else if b.head? = some '#' then some (b ++ ['\n'])
      -- a record's line is found by the tab and the hosts at its end alone
      else if recs.any fun r => ('\t' :: r.Hosts.toList).isSuffixOf b then none
      else some (b ++ ['\n'])).flatten

example : Delete "# hosts\n10.0.0.1\tweb\n\n10.0.0.3\tdb\n".toList [⟨"web", "10.0.0.1"⟩] =
    "# hosts\n10.0.0.3\tdb\n".toList := by
  decide

/-- The sandbox adds one record per address of an endpoint with the same
hosts; deleting the record of one address deletes the line of the other. -/
theorem delete_removes_other_address :
    Add [] [⟨"web", "10.0.0.1"⟩, ⟨"web", "10.0.0.2"⟩] = "10.0.0.1\tweb\n10.0.0.2\tweb\n".toList ∧
    Delete "10.0.0.1\tweb\n10.0.0.2\tweb\n".toList [⟨"web", "10.0.0.1"⟩] = [] := by
  constructor <;> decide

end Libnetwork.Etchosts
