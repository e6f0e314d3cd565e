import WebCrawl.ContentProcessing
import WebCrawl.LinkQuota

/-!
# The pages that are created, read as the crawler reads them

`webcreator.sh` writes a page line by line, and the crawler takes a page apart
line by line.  Here the loops of the script also write, which changes nothing
about the links that they draw.  What `echo $line` appends to a page is a
parameter; when it appends whole lines and none of them starts like a link, the
crawler finds exactly the links that were drawn, in their order.
-/

namespace WebCrawl

/-- A text in which a newline ends the last line, too. -/
def WholeLines (text : List Char) : Prop :=
  text = [] ∨ text.getLast? = some '\n'

instance (text : List Char) : Decidable (WholeLines text) :=
  inferInstanceAs (Decidable (_ ∨ _))

/-- The targets that `contentProcessing` finds in a text, in their order. -/
def pageTargets (text : List Char) : List (List Char) :=
  (pageLines text).filterMap linkTarget

section Texts

variable {text rest : List Char}

theorem pageLines_newline (front rest : List Char) :
    pageLines (front ++ '\n' :: rest) = front.splitOn '\n' ++ pageLines rest := by
  rw [pageLines, List.splitOn_append_cons_self,
    List.dropLast_append_of_ne_nil (List.splitOn_ne_nil _ _), pageLines]

theorem WholeLines.eq_nil_or_newline (whole : WholeLines text) :
    text = [] ∨ ∃ front, text = front ++ ['\n'] := by
  rcases whole with empty | last
  · exact Or.inl empty
  · exact Or.inr (List.getLast?_eq_some_iff.mp last)

theorem wholeLines_concat (front : List Char) : WholeLines (front ++ ['\n']) :=
  Or.inr List.getLast?_concat

theorem WholeLines.pageLines_append (whole : WholeLines text) (rest : List Char) :
    pageLines (text ++ rest) = pageLines text ++ pageLines rest := by
  have nothing : pageLines [] = [] := pageLines_unended List.not_mem_nil
  rcases whole.eq_nil_or_newline with rfl | ⟨front, rfl⟩
  · rw [List.nil_append, nothing, List.nil_append]
  · rw [List.append_assoc, List.singleton_append, pageLines_newline, pageLines_newline,
      nothing, List.append_nil]

theorem WholeLines.append (whole : WholeLines text) (restWhole : WholeLines rest) :
    WholeLines (text ++ rest) := by
  rcases restWhole.eq_nil_or_newline with rfl | ⟨front, rfl⟩
  · rwa [List.append_nil]
  · rw [← List.append_assoc]
    exact wholeLines_concat _

theorem WholeLines.pageTargets_append (whole : WholeLines text) (rest : List Char) :
    pageTargets (text ++ rest) = pageTargets text ++ pageTargets rest := by
  rw [pageTargets, whole.pageLines_append, List.filterMap_append]
  rfl

theorem WholeLines.linksClosed_append (whole : WholeLines text) (rest : List Char) :
    LinksClosed (text ++ rest) ↔ LinksClosed text ∧ LinksClosed rest := by
  simp only [LinksClosed, whole.pageLines_append, List.forall_mem_append]

/-- A text without a line that starts like a link. -/
theorem pageTargets_eq_nil_iff :
    pageTargets text = [] ↔ ∀ line ∈ pageLines text, ¬ linkStart <+: line := by
  simp only [pageTargets, List.filterMap_eq_nil_iff, linkTarget, ← List.isPrefixOf_iff_prefix]
  refine forall₂_congr fun line _ => ?_
  cases linkStart.isPrefixOf line <;> simp

theorem LinksClosed.of_pageTargets_eq_nil (plain : pageTargets text = []) :
    LinksClosed text :=
  fun line member isLink => absurd isLink (pageTargets_eq_nil_iff.mp plain line member)

end Texts

/-- The here-documents around the lines of a page. -/
def pageStart : List Char :=
  "<!DOCTYPE html>\n<html>\n<body>\n".toList

def pageEnd : List Char :=
  "</body>\n</html>\n".toList

def tagStart : List Char :=
  "<a href=\"".toList

def tagEnd : List Char :=
  "</a>".toList

/-- The line with a link to a page. -/
def anchor (target : SitePage) (label : List Char) : List Char :=
  tagStart ++ target.path ++ ['"', '>'] ++ label ++ tagEnd ++ ['\n']

def PageLink.anchor : PageLink → List Char
  | .internal target => WebCrawl.anchor target "Internal link".toList
  | .external target => WebCrawl.anchor target "External link".toList

section Anchors

/-- A character of a path comes at or behind the dot. -/
theorem SitePage.not_mem_path (page : SitePage) {char : Char} (before : char.toNat < 46) :
    char ∉ page.path := by
  have word : ∀ {text : List Char}, text.all (46 ≤ ·.toNat) = true → char ∉ text := by
    intro text allBehind member
    have behind := of_decide_eq_true (List.all_eq_true.mp allBehind char member)
    omega
  have digits : ∀ number, char ∉ Nat.toDigits 10 number := by
    intro number member
    have isDigit := Nat.isDigit_of_mem_toDigits (by decide : 0 < 10) (by decide : 10 ≤ 10) member
    simp only [Char.isDigit, Bool.and_eq_true, decide_eq_true_eq] at isDigit
    have behind : 48 ≤ char.toNat := UInt32.le_iff_toNat_le.mp isDigit.1
    omega
  have site : char ∉ "/site".toList := word (by decide)
  have middle : char ∉ "/page".toList := word (by decide)
  have underscore : char ∉ "_".toList := word (by decide)
  have html : char ∉ ".html".toList := word (by decide)
  have front := List.not_mem_append (List.not_mem_append site (digits page.site)) middle
  have name := List.not_mem_append (List.not_mem_append front (digits page.site)) underscore
  exact List.not_mem_append (List.not_mem_append name (digits page.number.val)) html

variable {target : SitePage} {label : List Char}

/-- The line, as the crawler takes it apart. -/
theorem anchor_eq (target : SitePage) (label : List Char) :
    anchor target label =
      (linkStart ++ (target.path ++ '"' :: ('>' :: label ++ tagEnd))) ++ ['\n'] := by
  have start : tagStart = linkStart := rfl
  rw [anchor, start]
  simp

theorem pageTargets_anchor (oneLine : '\n' ∉ label) :
    pageTargets (anchor target label) = [target.path] := by
  have path : '\n' ∉ target.path := target.not_mem_path (by decide)
  have start : '\n' ∉ linkStart := by decide
  have close : '\n' ∉ tagEnd := by decide
  have line : '\n' ∉ linkStart ++ (target.path ++ '"' :: ('>' :: label ++ tagEnd)) := by
    simp [path, start, oneLine, close]
  rw [pageTargets, anchor_eq, pageLines_cons [] line, pageLines_unended List.not_mem_nil,
    List.filterMap_cons, linkTarget_link (target.not_mem_path (by decide))]
  rfl

theorem linksClosed_anchor (oneLine : '\n' ∉ label) :
    LinksClosed (anchor target label) := by
  have path : '\n' ∉ target.path := target.not_mem_path (by decide)
  have start : '\n' ∉ linkStart := by decide
  have close : '\n' ∉ tagEnd := by decide
  have line : '\n' ∉ linkStart ++ (target.path ++ '"' :: ('>' :: label ++ tagEnd)) := by
    simp [path, start, oneLine, close]
  rw [anchor_eq, linksClosed_cons [] line]
  refine ⟨fun _ => ?_, by simp [LinksClosed, pageLines_unended]⟩
  rw [List.drop_left]
  simp

theorem nulFree_anchor (nulFree : '\x00' ∉ label) : '\x00' ∉ anchor target label := by
  have path : '\x00' ∉ target.path := target.not_mem_path (by decide)
  have start : '\x00' ∉ linkStart := by decide
  have close : '\x00' ∉ tagEnd := by decide
  rw [anchor_eq]
  simp [start, path, nulFree, close]

namespace PageLink

theorem anchor_whole (link : PageLink) : WholeLines link.anchor := by
  cases link with
  | internal | external =>
      rw [anchor, anchor_eq]
      exact wholeLines_concat _

theorem anchor_targets (link : PageLink) : pageTargets link.anchor = [link.target.path] := by
  cases link with
  | internal | external => exact pageTargets_anchor (by decide)

theorem anchor_closed (link : PageLink) : LinksClosed link.anchor := by
  cases link with
  | internal | external => exact linksClosed_anchor (by decide)

theorem anchor_nulFree (link : PageLink) : '\x00' ∉ link.anchor := by
  cases link with
  | internal | external => exact nulFree_anchor (by decide)

end PageLink

end Anchors

/-- The script with what `echo $line` appends to the file of a page. -/
structure PageCreator extends CreatorEnv where
  echo : List Char → CString

namespace PageCreator

variable (creator : PageCreator)

/-- The loop over the lines of a page, with what it appends to the file. -/
def writeLines (fuel : Nat) (sites : Sites) (i linkAfterLines : Nat) :
    List (List Char) → Nat → Nat → Nat → Outcome (List Char × List PageLink × Nat)
  | [], _, _, place => return ([], [], place)
  | line :: lines, count, f, place =>
      if count = linkAfterLines then do
        let (link, f, place) ← creator.addLink fuel sites i f place
        let (text, links, place) ← writeLines fuel sites i linkAfterLines lines 1 f place
        return ((creator.echo line).chars ++ link.anchor ++ text, link :: links, place)
      else do
        let (text, links, place) ←
          writeLines fuel sites i linkAfterLines lines (count + 1) f place
        return ((creator.echo line).chars ++ text, links, place)

/-- A page and the text of its file. -/
abbrev PageFile :=
  WrittenPage × List Char

def writeFile (fuel : Nat) (sites : Sites) (key : Nat × Nat) (place : Nat) :
    Outcome (PageFile × Nat) := do
  let k := creator.startLine place
  let m := creator.lineCount (place + 1)
  let page ← sites.get key
  let (text, links, place) ← creator.writeLines fuel sites key.1 (creator.linkAfterLines m)
    (creator.lineWords k m) 1 creator.internalLinks (place + 2)
  return ((⟨key, page, k, m, links⟩, pageStart ++ text ++ pageEnd), place)

def writeFiles (fuel : Nat) (sites : Sites) :
    List (Nat × Nat) → Nat → Outcome (List PageFile × Nat)
  | [], place => return ([], place)
  | key :: keys, place => do
      let (file, place) ← creator.writeFile fuel sites key place
      let (files, place) ← writeFiles fuel sites keys place
      return (file :: files, place)

/-- `webcreator.sh` with the files that it leaves. -/
def createSite (fuel : Nat) : Outcome (Created × List PageFile) := do
  let (sites, place) ← creator.nameSites fuel (allKeys creator.w creator.p) [] 0
  let (files, _) ← creator.writeFiles fuel sites
    (creator.keyOrder (allKeys creator.w creator.p)) place
  let pages := files.map Prod.fst
  return (⟨sites, pages, creator.linkReport pages⟩, files)

variable {creator} {fuel : Nat} {sites : Sites}

section Erasure

theorem writeLines_erased (i linkAfterLines : Nat) (lines : List (List Char))
    (count f place : Nat) :
    (creator.writeLines fuel sites i linkAfterLines lines count f place >>= fun written =>
      .returns written.2) =
      creator.addLinks fuel sites i linkAfterLines lines count f place := by
  induction lines generalizing count f place with
  | nil => rfl
  | cons line lines ih =>
      rw [writeLines, CreatorEnv.addLinks]
      split
      next =>
        rw [bind_assoc]
        apply bind_congr
        rintro ⟨link, left, next⟩
        dsimp only
        rw [← ih 1 left next, bind_assoc, bind_assoc]
        rfl
      next =>
        rw [← ih (count + 1) f place, bind_assoc]
        rfl

theorem writeFile_erased (key : Nat × Nat) (place : Nat) :
    (creator.writeFile fuel sites key place >>= fun written =>
      .returns (written.1.1, written.2)) = creator.writePage fuel sites key place := by
  rw [writeFile, CreatorEnv.writePage, bind_assoc]
  refine bind_congr fun page => ?_
  rw [← writeLines_erased, bind_assoc, bind_assoc]
  rfl

theorem writeFiles_erased (keys : List (Nat × Nat)) (place : Nat) :
    (creator.writeFiles fuel sites keys place >>= fun written =>
      .returns (written.1.map Prod.fst, written.2)) =
      creator.writePages fuel sites keys place := by
  induction keys generalizing place with
  | nil => rfl
  | cons key keys ih =>
      rw [writeFiles, CreatorEnv.writePages, ← writeFile_erased, bind_assoc, bind_assoc]
      apply bind_congr
      rintro ⟨file, next⟩
      dsimp only
      rw [Outcome.returns_bind]
      dsimp only
      rw [← ih next, bind_assoc, bind_assoc]
      rfl

/-- To write the files changes nothing about the pages. -/
theorem createSite_erased (creator : PageCreator) (fuel : Nat) :
    (creator.createSite fuel >>= fun created => .returns created.1) =
      creator.webcreator fuel := by
  rw [createSite, CreatorEnv.webcreator, bind_assoc]
  apply bind_congr
  rintro ⟨sites, place⟩
  dsimp only
  rw [← writeFiles_erased, bind_assoc, bind_assoc]
  rfl

theorem createSite_webcreator {created : Created} {files : List PageFile}
    (returned : creator.createSite fuel = .returns (created, files)) :
    creator.webcreator fuel = .returns created := by
  rw [← createSite_erased, returned]
  rfl

theorem createSite_pages {created : Created} {files : List PageFile}
    (returned : creator.createSite fuel = .returns (created, files)) :
    files.map Prod.fst = created.pages := by
  obtain ⟨⟨sites, start⟩, _, rest⟩ := Outcome.bind_eq_returns returned
  obtain ⟨⟨others, last⟩, _, done⟩ := Outcome.bind_eq_returns rest
  cases done
  rfl

theorem createSite_returns {created : Created}
    (returned : creator.webcreator fuel = .returns created) :
    ∃ files, creator.createSite fuel = .returns (created, files) := by
  rw [← createSite_erased] at returned
  obtain ⟨⟨other, files⟩, wrote, done⟩ := Outcome.bind_eq_returns returned
  cases done
  exact ⟨files, wrote⟩

end Erasure

section Reading

variable {lines : List (List Char)} {links : List PageLink} {text : List Char}

/-- What the crawler finds in the lines of a page and the links between them. -/
structure ReadBack (creator : PageCreator) (lines : List (List Char)) (links : List PageLink)
    (text : List Char) : Prop where
  whole : WholeLines text
  nulFree : '\x00' ∉ text
  length : (pageTargets text).length = links.length +
    (lines.map fun line => (pageTargets (creator.echo line).chars).length).sum
  targets : (∀ line ∈ lines, pageTargets (creator.echo line).chars = []) →
    pageTargets text = links.map fun link => link.target.path
  closed : (∀ line ∈ lines, pageTargets (creator.echo line).chars = []) → LinksClosed text

theorem ReadBack.nil : ReadBack creator [] [] [] where
  whole := Or.inl rfl
  nulFree := List.not_mem_nil
  length := by rw [pageTargets, pageLines_unended List.not_mem_nil]; rfl
  targets _ := by rw [pageTargets, pageLines_unended List.not_mem_nil]; rfl
  closed _ := by simp [LinksClosed, pageLines_unended]

theorem ReadBack.line {line : List Char} (whole : WholeLines (creator.echo line).chars)
    (later : ReadBack creator lines links text) :
    ReadBack creator (line :: lines) links ((creator.echo line).chars ++ text) where
  whole := whole.append later.whole
  nulFree := by simp [(creator.echo line).nulFree, later.nulFree]
  length := by
    have length := later.length
    rw [whole.pageTargets_append, List.length_append, List.map_cons, List.sum_cons]
    omega
  targets plain := by
    rw [List.forall_mem_cons] at plain
    rw [whole.pageTargets_append, plain.1, later.targets plain.2, List.nil_append]
  closed plain := by
    rw [List.forall_mem_cons] at plain
    exact (whole.linksClosed_append text).mpr
      ⟨.of_pageTargets_eq_nil plain.1, later.closed plain.2⟩

theorem ReadBack.link (link : PageLink) (later : ReadBack creator lines links text) :
    ReadBack creator lines (link :: links) (link.anchor ++ text) where
  whole := link.anchor_whole.append later.whole
  nulFree := by simp [link.anchor_nulFree, later.nulFree]
  length := by
    have length := later.length
    rw [link.anchor_whole.pageTargets_append, link.anchor_targets, List.length_append,
      List.length_singleton, List.length_cons]
    omega
  targets plain := by
    rw [link.anchor_whole.pageTargets_append, link.anchor_targets, later.targets plain]
    rfl
  closed plain :=
    (link.anchor_whole.linksClosed_append text).mpr ⟨link.anchor_closed, later.closed plain⟩

theorem writeLines_readBack {i linkAfterLines count f place next : Nat}
    (whole : ∀ line ∈ lines, WholeLines (creator.echo line).chars)
    (written : creator.writeLines fuel sites i linkAfterLines lines count f place =
      .returns (text, links, next)) : ReadBack creator lines links text := by
  induction lines generalizing count f place text links with
  | nil =>
      cases written
      exact .nil
  | cons line lines ih =>
      rw [List.forall_mem_cons] at whole
      rw [writeLines] at written
      split at written
      next =>
        obtain ⟨⟨link, left, later⟩, _, rest⟩ := Outcome.bind_eq_returns written
        obtain ⟨⟨more, others, last⟩, after, done⟩ := Outcome.bind_eq_returns rest
        cases done
        rw [List.append_assoc]
        exact .line whole.1 (.link link (ih whole.2 after))
      next =>
        obtain ⟨⟨more, others, last⟩, after, done⟩ := Outcome.bind_eq_returns written
        cases done
        exact .line whole.1 (ih whole.2 after)

/-- The bytes of the lines and of the links. -/
def bodySize (creator : PageCreator) (lines : List (List Char)) (links : List PageLink) : Nat :=
  (lines.map fun line => (creator.echo line).chars.length).sum +
    (links.map fun link => link.anchor.length).sum

theorem writeLines_length {i linkAfterLines count f place next : Nat}
    (written : creator.writeLines fuel sites i linkAfterLines lines count f place =
      .returns (text, links, next)) : text.length = creator.bodySize lines links := by
  induction lines generalizing count f place text links with
  | nil =>
      cases written
      rfl
  | cons line lines ih =>
      rw [writeLines] at written
      split at written
      next =>
        obtain ⟨⟨link, left, later⟩, _, rest⟩ := Outcome.bind_eq_returns written
        obtain ⟨⟨more, others, last⟩, after, done⟩ := Outcome.bind_eq_returns rest
        cases done
        have length := ih after
        simp only [bodySize, List.length_append, List.map_cons, List.sum_cons] at length ⊢
        omega
      next =>
        obtain ⟨⟨more, others, last⟩, after, done⟩ := Outcome.bind_eq_returns written
        cases done
        have length := ih after
        simp only [bodySize, List.length_append, List.map_cons, List.sum_cons] at length ⊢
        omega

/-- The here-documents add no link. -/
theorem ReadBack.page (body : ReadBack creator lines links text) :
    ReadBack creator lines links (pageStart ++ text ++ pageEnd) := by
  have startWhole : WholeLines pageStart := by decide
  have startPlain : pageTargets pageStart = [] := by decide
  have endPlain : pageTargets pageEnd = [] := by decide
  have same : pageTargets (pageStart ++ text ++ pageEnd) = pageTargets text := by
    rw [(startWhole.append body.whole).pageTargets_append, startWhole.pageTargets_append,
      startPlain, endPlain, List.nil_append, List.append_nil]
  have startNulFree : '\x00' ∉ pageStart := by decide
  have endNulFree : '\x00' ∉ pageEnd := by decide
  exact
    { whole := (startWhole.append body.whole).append (by decide)
      nulFree := by simp [startNulFree, endNulFree, body.nulFree]
      length := by rw [same, body.length]
      targets := fun plain => by rw [same, body.targets plain]
      closed := fun plain => by
        rw [(startWhole.append body.whole).linksClosed_append, startWhole.linksClosed_append]
        exact ⟨⟨.of_pageTargets_eq_nil startPlain, body.closed plain⟩,
          .of_pageTargets_eq_nil endPlain⟩ }

/-- Each file was written at some place of the stream. -/
theorem writeFiles_mem {keys : List (Nat × Nat)} {files : List PageFile} {place next : Nat}
    (returned : creator.writeFiles fuel sites keys place = .returns (files, next))
    {file : PageFile} (isFile : file ∈ files) :
    ∃ key place next, creator.writeFile fuel sites key place = .returns (file, next) := by
  induction keys generalizing place files with
  | nil =>
      cases returned
      cases isFile
  | cons key keys ih =>
      obtain ⟨⟨first, later⟩, wrote, rest⟩ := Outcome.bind_eq_returns returned
      obtain ⟨⟨others, last⟩, more, done⟩ := Outcome.bind_eq_returns rest
      cases done
      rcases List.mem_cons.mp isFile with rfl | other
      · exact ⟨key, place, later, wrote⟩
      · exact ih more other

variable {created : Created} {files : List PageFile} {written : WrittenPage}

/-- The lines and the links of a file, between the here-documents. -/
theorem createSite_writeLines (returned : creator.createSite fuel = .returns (created, files))
    (isFile : (written, text) ∈ files) :
    ∃ sites i linkAfterLines count f place body next,
      creator.writeLines fuel sites i linkAfterLines (creator.lineWords written.k written.m)
        count f place = .returns (body, written.links, next) ∧
      text = pageStart ++ body ++ pageEnd := by
  obtain ⟨⟨sites, start⟩, _, rest⟩ := Outcome.bind_eq_returns returned
  obtain ⟨⟨others, last⟩, wrote, done⟩ := Outcome.bind_eq_returns rest
  cases done
  obtain ⟨key, place, next, single⟩ := writeFiles_mem wrote isFile
  obtain ⟨page, _, afterPage⟩ := Outcome.bind_eq_returns single
  obtain ⟨⟨body, links, later⟩, appended, done⟩ := Outcome.bind_eq_returns afterPage
  cases done
  exact ⟨_, _, _, _, _, _, body, _, appended, rfl⟩

theorem createSite_length (returned : creator.createSite fuel = .returns (created, files))
    (isFile : (written, text) ∈ files) :
    text.length =
      creator.bodySize (creator.lineWords written.k written.m) written.links + 46 := by
  obtain ⟨_, _, _, _, _, _, body, _, appended, rfl⟩ := createSite_writeLines returned isFile
  have start : pageStart.length = 30 := by decide
  have last : pageEnd.length = 16 := by decide
  have length := writeLines_length appended
  rw [List.length_append, List.length_append, start, last, length]
  omega

theorem createSite_readBack
    (whole : ∀ word ∈ creator.lineWords written.k written.m,
      WholeLines (creator.echo word).chars)
    (returned : creator.createSite fuel = .returns (created, files))
    (isFile : (written, text) ∈ files) :
    ReadBack creator (creator.lineWords written.k written.m) written.links text := by
  obtain ⟨_, _, _, _, _, _, body, _, appended, rfl⟩ := createSite_writeLines returned isFile
  exact (writeLines_readBack whole appended).page

/-- The script and the crawler agree about a page: the crawler copies it and finds the
links that were drawn, in their order, unless a line of the text starts like a link. -/
theorem links_read_back_iff
    (whole : ∀ word ∈ creator.lineWords written.k written.m,
      WholeLines (creator.echo word).chars)
    (returned : creator.createSite fuel = .returns (created, files))
    (isFile : (written, text) ∈ files) {env : CrawlerEnv} {fileName : CString}
    (savable : Savable env fileName) :
    (∃ processed,
      Outcome.Settles (contentProcessing · env (text ++ ['\x00']) fileName)
        (.returns processed) ∧
      processed.saved.chars = text ∧
      processed.links.map CString.chars = written.links.map fun link => link.target.path) ↔
    ∀ word ∈ creator.lineWords written.k written.m,
      ∀ line ∈ pageLines (creator.echo word).chars, ¬ linkStart <+: line := by
  have readBack := createSite_readBack whole returned isFile
  simp only [← pageTargets_eq_nil_iff]
  constructor
  · rintro ⟨processed, settles, _, links⟩ word isWord
    rcases contentProcessing_settles env ⟨text, readBack.nulFree⟩ fileName with
      ⟨_, _, other, otherSettles, _, targets⟩ | ⟨_, faults⟩
    · cases otherSettles.unique settles
      -- a target more would be a link more
      have length := readBack.length
      rw [pageTargets, ← targets, links, List.length_map, Nat.left_eq_add,
        List.sum_eq_zero_iff_forall_eq_nat] at length
      exact List.length_eq_zero_iff.mp (length _ (List.mem_map_of_mem isWord))
    · cases settles.unique faults
  · intro plain
    have targets := readBack.targets plain
    rcases contentProcessing_settles env ⟨text, readBack.nulFree⟩ fileName with
      ⟨_, _, processed, settles, saved, found⟩ | ⟨broken, _⟩
    · exact ⟨processed, settles, congrArg CString.chars saved, found.trans targets⟩
    · exact absurd ⟨savable, readBack.closed plain⟩ broken

/-- The site of letters, with an `echo` that ends a line. -/
def letters : PageCreator where
  toCreatorEnv := CreatorEnv.letterLines
  echo := fun line => .ofBlock (line ++ ['\n'])

def lettersSite : Created where
  sites := CreatorEnv.letterSites
  pages := [CreatorEnv.firstLetterPage, CreatorEnv.secondLetterPage]
  report := letters.linkReport [CreatorEnv.firstLetterPage, CreatorEnv.secondLetterPage]

theorem letters_created : ∃ files, letters.createSite 5 = .returns (lettersSite, files) :=
  createSite_returns
    (CreatorEnv.webcreator_of_runs CreatorEnv.letterLines_named CreatorEnv.letterLines_pages)

theorem letters_words (isPage : written ∈ lettersSite.pages) :
    ∃ count, count ≤ 2000 ∧
      letters.lineWords written.k written.m = List.replicate count ['a'] := by
  have words : ∀ {k m : Nat}, 1 ≤ k → k + m ≤ 10001 →
      letters.lineWords k m = List.replicate m ['a'] := CreatorEnv.letterLines_lineWords
  rcases List.mem_pair.mp isPage with rfl | rfl
  · exact ⟨1004, by decide, words (by decide) (by decide)⟩
  · exact ⟨1011, by decide, words (by decide) (by decide)⟩

theorem letters_word {word : List Char} (isPage : written ∈ lettersSite.pages)
    (isWord : word ∈ letters.lineWords written.k written.m) : word = ['a'] := by
  obtain ⟨count, _, words⟩ := letters_words isPage
  rw [words] at isWord
  exact List.eq_of_mem_replicate isWord

theorem letters_plain {word : List Char} (isPage : written ∈ lettersSite.pages)
    (isWord : word ∈ letters.lineWords written.k written.m) :
    WholeLines (letters.echo word).chars ∧
      ∀ line ∈ pageLines (letters.echo word).chars, ¬ linkStart <+: line := by
  rw [letters_word isPage isWord]
  decide

theorem links_read_back_iff_letters : ∃ text processed,
    Outcome.Settles (contentProcessing · openDirectory (text ++ ['\x00']) (.ofBlock ['/']))
      (.returns processed) ∧
    processed.saved.chars = text ∧
    processed.links.map CString.chars =
      CreatorEnv.firstLetterPage.links.map fun link => link.target.path := by
  obtain ⟨files, returned⟩ := letters_created
  have isPage : CreatorEnv.firstLetterPage ∈ lettersSite.pages := List.mem_cons_self
  rw [← createSite_pages returned] at isPage
  obtain ⟨⟨_, text⟩, isFile, rfl⟩ := List.mem_map.mp isPage
  have plain := fun word => @letters_plain CreatorEnv.firstLetterPage word List.mem_cons_self
  have savable : Savable openDirectory (.ofBlock ['/']) := ⟨by decide, rfl⟩
  exact ⟨text, (links_read_back_iff (fun word isWord => (plain word isWord).1) returned isFile
    savable).mpr fun word isWord => (plain word isWord).2⟩

end Reading

end PageCreator

end WebCrawl
