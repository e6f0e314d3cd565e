import WebCrawl.LexicalPath
import WebCrawl.PageDelivery

/-!
# Which files are served

`recv_get` puts `root_dir` in front of whatever stands at the place of the name
in the request line.  Neither parent components are looked for nor a slash
between the two, so the path may lead out of `root_dir`.
-/

namespace WebCrawl

open LexicalPath

/-- What `recv_get` appends to `root_dir`. -/
def requestPart (line : List Char) : CString :=
  .ofBlock (((line ++ ['\x00']).set (toInt (strlen (line ++ ['\x00'])) - 9).toNat
    '\x00').drop 4)

theorem requestName_eq (rootDir : CString) (line : List Char) :
    (requestName rootDir (line ++ ['\x00'])).chars =
      rootDir.chars ++ (requestPart line).chars :=
  rfl

/-- A file that is served lies inside `root_dir` exactly when the name in the request
is confined there. -/
theorem served_path_inside_iff {server : ServerEnv} {sock after : Socket}
    {name : CString} {data line rest : List Char} {closed : Bool}
    (delivers : sock.Delivers data closed)
    (next : nextLine closed data = some (line, rest))
    (received : Outcome.Settles (recvGet · server.rootDir sock)
      (.returns (some name, after))) :
    ((server.file name).response.status = .ok →
      PathInside server.rootDir.chars name.chars) ↔
    ((server.file name).response.status = .ok →
      Confined server.rootDir.chars (requestPart line).chars) := by
  apply imp_congr_right
  intro _
  rw [(recvGet_returned delivers next received).2, requestName_eq]
  exact pathInside_append_iff _ _

/-- A request with the given first line and blank lines behind it. -/
def requestOf (line : List Char) : Socket :=
  .ofData true (line ++ List.replicate 6 '\n')

theorem nextLine_requestOf {line : List Char} (oneLine : OneLine line) :
    nextLine true (line ++ List.replicate 6 '\n') =
      some (line, List.replicate 5 '\n') := by
  rw [nextLine_append true _ oneLine]
  simp [List.replicate_succ, nextLine]

theorem recvGet_requestOf (rootDir : CString) {line : List Char}
    (oneLine : OneLine line) (long : 13 < toInt (strlen line)) :
    ∃ after, Outcome.Settles (recvGet · rootDir (requestOf line))
      (.returns (some (requestName rootDir (line ++ ['\x00'])), after)) := by
  obtain ⟨after, received, _⟩ := @recvGet_name rootDir _ _ _ _ _ _
    (SegmentedStream.Stream.ofData_delivers true _) (nextLine_requestOf oneLine) long
    (show afterLines true 5 (List.replicate 5 '\n') = some [] by decide)
  exact ⟨after, received⟩

def textSite : ServerEnv :=
  siteOf (.readable "text".toList)

def detourLine : List Char :=
  "GET /a/../index HTTP/1.1".toList

def parentLine : List Char :=
  "GET /../etc/passwd HTTP/1.1".toList

def siblingLine : List Char :=
  "GET 2/secret HTTP/1.1".toList

theorem served_path_inside_iff_detour :
    ∃ name after, Outcome.Settles
        (recvGet · textSite.rootDir (requestOf detourLine))
        (.returns (some name, after)) ∧
      (textSite.file name).response.status = .ok ∧
      ((textSite.file name).response.status = .ok →
        PathInside textSite.rootDir.chars name.chars) := by
  have oneLine : OneLine detourLine := by decide
  obtain ⟨after, received⟩ := recvGet_requestOf textSite.rootDir oneLine (by decide)
  exact ⟨_, after, received, rfl,
    (served_path_inside_iff (SegmentedStream.Stream.ofData_delivers true _)
      (nextLine_requestOf oneLine) received).mpr fun _ => by decide⟩

/-- A parent component leads out of `/srv`, and a name without a slash leads to
`/srv2`. -/
theorem served_path_outside :
    (∃ name after, Outcome.Settles
        (recvGet · textSite.rootDir (requestOf parentLine))
        (.returns (some name, after)) ∧
      (textSite.file name).response.status = .ok ∧
      ¬ PathInside textSite.rootDir.chars name.chars) ∧
    ∃ name after, Outcome.Settles
        (recvGet · textSite.rootDir (requestOf siblingLine))
        (.returns (some name, after)) ∧
      (textSite.file name).response.status = .ok ∧
      ¬ PathInside textSite.rootDir.chars name.chars := by
  constructor
  · obtain ⟨after, received⟩ := @recvGet_requestOf textSite.rootDir parentLine
      (by decide) (by decide)
    refine ⟨_, after, received, rfl, ?_⟩
    rw [requestName_eq, pathInside_append_iff]
    decide
  · obtain ⟨after, received⟩ := @recvGet_requestOf textSite.rootDir siblingLine
      (by decide) (by decide)
    refine ⟨_, after, received, rfl, ?_⟩
    rw [requestName_eq, pathInside_append_iff]
    decide

end WebCrawl
