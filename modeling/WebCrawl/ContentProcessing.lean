import WebCrawl.LinkExtraction

/-!
# Processing a page

`contentProcessing` saves a page and looks up its links.  The directories that
`mkdirs` asks for may exist or not; whether `fopen` succeeds is a parameter.
The loop over the links is described by the lines of the page: its links are
the targets of the lines that start like a link, and it stores through a null
pointer as soon as one of them has no closing quote.
-/

namespace WebCrawl

/-- What the crawler finds around it. -/
structure CrawlerEnv where
  saveDir : CString
  opens : CString → Bool

/-- A directory in which every file can be opened. -/
def openDirectory : CrawlerEnv where
  saveDir := ⟨"saved".toList, by decide⟩
  opens := fun _ => true

def CString.take (string : CString) (count : Nat) : CString :=
  ⟨string.chars.take count, fun member => string.nulFree (List.mem_of_mem_take member)⟩

def cutSlash (dir : CString) : CString :=
  if dir.chars.getLast? = some '/' then dir.take (dir.chars.length - 1) else dir

theorem cutSlash_chars {dir : CString} {front : List Char}
    (ends : dir.chars = front ++ ['/']) : (cutSlash dir).chars = front := by
  have last : dir.chars.getLast? = some '/' := by simp [ends]
  rw [cutSlash, if_pos last]
  change dir.chars.take (dir.chars.length - 1) = front
  rw [ends, List.length_append, List.length_singleton, Nat.add_sub_cancel, List.take_left]

/-- `mkdirs`: the name that it leaves behind and the directories that it asks
`mkdir` for.  On the empty string it looks at the character before the first. -/
def mkdirs (dir : CString) : Outcome (CString × List CString) :=
  if dir.chars = [] then .faults
  else
    let dir := cutSlash dir
    let slashes := (List.range dir.chars.length).filter fun place =>
      1 ≤ place && dir.chars[place]? = some '/'
    .returns (dir, slashes.map dir.take)

/-- The loop of `contentProcessing`, with the links that it looks up in the
lists. -/
def extractLinks : Nat → LinkScan → Outcome (List CString)
  | 0, _ => .unfinished
  | fuel + 1, scan => do
      match ← scan.line with
      | .finished => return []
      | .skipped after => extractLinks fuel after
      | .extracted link after => do
          let links ← extractLinks fuel after
          return link :: links

/-- What a call of `contentProcessing` did. -/
structure Processed where
  directories : List CString
  name : CString
  saved : CString
  links : List CString
  deriving DecidableEq

/-- `contentProcessing` on the block that holds the page.  Printing to the null
pointer that a failed `fopen` returns is undefined. -/
def contentProcessing (fuel : Nat) (env : CrawlerEnv) (content : List Char)
    (fileName : CString) : Outcome Processed := do
  let (name, directories) ← mkdirs (env.saveDir.strcat fileName)
  if env.opens name then
    let links ← extractLinks fuel ⟨content, 0⟩
    return ⟨directories, name, .ofBlock content, links⟩
  else .faults

/-- What `contentProcessing` did before it looks for links. -/
structure SavedPage where
  directories : List CString
  name : CString
  saved : CString
  deriving DecidableEq

def savePage (env : CrawlerEnv) (content : List Char) (fileName : CString) :
    Outcome SavedPage := do
  let (name, directories) ← mkdirs (env.saveDir.strcat fileName)
  if env.opens name then return ⟨directories, name, .ofBlock content⟩ else .faults

theorem contentProcessing_eq (fuel : Nat) (env : CrawlerEnv) (content : List Char)
    (fileName : CString) :
    contentProcessing fuel env content fileName =
      savePage env content fileName >>= fun page =>
        extractLinks fuel ⟨content, 0⟩ >>= fun links =>
          .returns ⟨page.directories, page.name, page.saved, links⟩ := by
  rw [contentProcessing, savePage, bind_assoc]
  apply bind_congr
  rintro ⟨name, directories⟩
  dsimp only
  split <;> rfl

theorem mkdirs_nonempty {dir : CString} (nonempty : dir.chars ≠ []) :
    ∃ directories, mkdirs dir = .returns (cutSlash dir, directories) :=
  ⟨_, if_neg nonempty⟩

/-- The lines of a page that are ended by a newline. -/
def pageLines (text : List Char) : List (List Char) :=
  (text.splitOn '\n').dropLast

/-- The target of a line that starts like a link. -/
def linkTarget (line : List Char) : Option (List Char) :=
  if linkStart.isPrefixOf line then
    some ((line.drop linkStart.length).takeWhile (· ≠ '"'))
  else none

def LinkClosed (line : List Char) : Prop :=
  linkStart <+: line → '"' ∈ line.drop linkStart.length

def LinksClosed (text : List Char) : Prop :=
  ∀ line ∈ pageLines text, LinkClosed line

instance (line : List Char) : Decidable (LinkClosed line) :=
  inferInstanceAs (Decidable (_ → _))

instance (text : List Char) : Decidable (LinksClosed text) :=
  inferInstanceAs (Decidable (∀ line ∈ pageLines text, LinkClosed line))

theorem pageLines_unended {text : List Char} (noNewline : '\n' ∉ text) :
    pageLines text = [] := by
  rw [pageLines, List.splitOn_eq_singleton noNewline]
  rfl

theorem pageLines_cons {line : List Char} (rest : List Char)
    (oneLine : '\n' ∉ line) :
    pageLines (line ++ '\n' :: rest) = line :: pageLines rest := by
  rw [pageLines, List.splitOn_append_cons_self, List.splitOn_eq_singleton oneLine,
    List.singleton_append, List.dropLast_cons_of_ne_nil (List.splitOn_ne_nil _ _)]
  rfl

theorem linksClosed_cons {line : List Char} (rest : List Char)
    (oneLine : '\n' ∉ line) :
    LinksClosed (line ++ '\n' :: rest) ↔ LinkClosed line ∧ LinksClosed rest := by
  simp [LinksClosed, pageLines_cons rest oneLine]

/-- What the loop does on the part of a page that is still ahead. -/
def LoopResult (rest : List Char) (result : Outcome (List CString)) : Prop :=
  (LinksClosed rest ∧ ∃ links, result = .returns links ∧
    links.map CString.chars = (pageLines rest).filterMap linkTarget) ∨
  (¬ LinksClosed rest ∧ result = .faults)

theorem LoopResult.of_line {line rest : List Char} {result : Outcome (List CString)}
    (oneLine : '\n' ∉ line) (closed : LinkClosed line) (link : Option CString)
    (target : link.map CString.chars = linkTarget line)
    (later : LoopResult rest result) :
    LoopResult (line ++ '\n' :: rest)
      (result >>= fun links => .returns (link.toList ++ links)) := by
  rcases later with ⟨restClosed, links, rfl, targets⟩ | ⟨restUnclosed, rfl⟩
  · refine Or.inl ⟨(linksClosed_cons rest oneLine).mpr ⟨closed, restClosed⟩,
      link.toList ++ links, rfl, ?_⟩
    rw [pageLines_cons rest oneLine, List.filterMap_cons, ← target, List.map_append,
      targets]
    cases link <;> rfl
  · exact Or.inr ⟨fun all => restUnclosed ((linksClosed_cons rest oneLine).mp all).2,
      rfl⟩

theorem linkTarget_link {target more : List Char} (firstQuote : '"' ∉ target) :
    linkTarget (linkStart ++ (target ++ '"' :: more)) = some target := by
  have isPrefix : linkStart.isPrefixOf (linkStart ++ (target ++ '"' :: more)) = true :=
    List.isPrefixOf_iff_prefix.mpr (List.prefix_append _ _)
  rw [linkTarget, if_pos isPrefix, List.drop_left, List.takeWhile_append_of_pos]
  · simp
  · intro ch member
    simp only [decide_eq_true_eq]
    rintro rfl
    exact firstQuote member

/-- A line is a link with its closing quote, a link without one, or no link. -/
theorem link_cases (line : List Char) :
    (∃ target more, '"' ∉ target ∧ line = linkStart ++ (target ++ '"' :: more)) ∨
      (∃ target, '"' ∉ target ∧ line = linkStart ++ target) ∨ ¬ linkStart <+: line := by
  by_cases isLink : linkStart <+: line
  · obtain ⟨target, rfl⟩ := isLink
    by_cases quoted : '"' ∈ target
    · obtain ⟨target, more, rfl, firstQuote⟩ := List.eq_append_cons_of_mem quoted
      exact Or.inl ⟨target, more, firstQuote, rfl⟩
    · exact Or.inr (Or.inl ⟨target, quoted, rfl⟩)
  · exact Or.inr (Or.inr isLink)

/-- The loop on the rest of a page extracts the targets of its lines, or runs
into a link without a closing quote. -/
theorem extractLinks_settles {scan : LinkScan} {rest : List Char}
    (ahead : scan.Ahead rest) :
    ∃ result, Outcome.Settles (extractLinks · scan) result ∧
      LoopResult rest result := by
  obtain ⟨size, sizeEq⟩ : ∃ size, size = rest.length := ⟨_, rfl⟩
  induction size using Nat.strong_induction_on generalizing scan rest with
  | _ size ih =>
      by_cases newline : '\n' ∈ rest
      · obtain ⟨line, later, rfl, oneLine⟩ := List.eq_append_cons_of_mem newline
        have shorter : later.length < size := by
          rw [sizeEq, List.length_append, List.length_cons]
          omega
        rcases link_cases line with
          ⟨target, more, firstQuote, rfl⟩ | ⟨target, unquoted, rfl⟩ | isLink
        · obtain ⟨link, after, round, chars, afterAhead⟩ :=
            LinkScan.line_link ahead oneLine firstQuote
          obtain ⟨result, settles, loop⟩ := ih _ shorter afterAhead rfl
          refine ⟨_, .of_succ rfl ?_, loop.of_line oneLine ?_ (some link) ?_⟩
          · simp only [extractLinks, round, Outcome.returns_bind]
            exact settles.bind fun links _ => .const _
          · intro _
            rw [List.drop_left]
            exact List.mem_append_right _ List.mem_cons_self
          · rw [linkTarget_link firstQuote, Option.map_some, chars]
        · refine ⟨.faults, .of_succ rfl ?_, Or.inr ⟨fun all => unquoted ?_, rfl⟩⟩
          · simp only [extractLinks, LinkScan.line_unclosed ahead oneLine unquoted]
            exact .const _
          · have closed := ((linksClosed_cons later oneLine).mp all).1
              (List.prefix_append _ _)
            rwa [List.drop_left] at closed
        · obtain ⟨after, round, afterAhead⟩ :=
            LinkScan.line_text ahead oneLine isLink
          obtain ⟨result, settles, loop⟩ := ih _ shorter afterAhead rfl
          refine ⟨_, .of_succ rfl ?_, loop.of_line oneLine ?_ none ?_⟩
          · simp only [extractLinks, round, Outcome.returns_bind]
            simpa using settles
          · exact fun isPrefix => absurd isPrefix isLink
          · rw [linkTarget, if_neg]
            · rfl
            · rwa [List.isPrefixOf_iff_prefix]
      · refine ⟨.returns [], .of_succ rfl ?_, Or.inl ⟨?_, [], rfl, ?_⟩⟩
        · simp only [extractLinks, LinkScan.line_finished ahead newline]
          exact .const _
        · simp [LinksClosed, pageLines_unended newline]
        · simp [pageLines_unended newline]

/-- The file for a page has a name and can be opened. -/
def Savable (env : CrawlerEnv) (fileName : CString) : Prop :=
  (env.saveDir.strcat fileName).chars ≠ [] ∧
    env.opens (cutSlash (env.saveDir.strcat fileName)) = true

theorem savePage_of_savable {env : CrawlerEnv} {fileName : CString}
    (content : List Char) (savable : Savable env fileName) :
    ∃ page, savePage env content fileName = .returns page := by
  obtain ⟨directories, made⟩ := mkdirs_nonempty savable.1
  exact ⟨_, by rw [savePage, made, Outcome.returns_bind]; exact if_pos savable.2⟩

theorem savePage_returns {env : CrawlerEnv} {fileName : CString}
    {content : List Char} {page : SavedPage}
    (saved : savePage env content fileName = .returns page) :
    Savable env fileName ∧ page.saved = .ofBlock content := by
  by_cases empty : (env.saveDir.strcat fileName).chars = []
  · rw [savePage, mkdirs, if_pos empty] at saved
    cases saved
  · obtain ⟨directories, made⟩ := mkdirs_nonempty empty
    rw [savePage, made, Outcome.returns_bind] at saved
    dsimp only at saved
    split at saved
    next opens =>
        cases saved
        exact ⟨⟨empty, opens⟩, rfl⟩
    next => cases saved

/-- A page is processed exactly when it can be saved and its links are closed;
otherwise `contentProcessing` does something undefined. -/
theorem contentProcessing_settles (env : CrawlerEnv) (page fileName : CString) :
    (Savable env fileName ∧ LinksClosed page.chars ∧ ∃ processed,
      Outcome.Settles
        (contentProcessing · env (page.chars ++ ['\x00']) fileName)
        (.returns processed) ∧
      processed.saved = page ∧
      processed.links.map CString.chars =
        (pageLines page.chars).filterMap linkTarget) ∨
    (¬ (Savable env fileName ∧ LinksClosed page.chars) ∧
      Outcome.Settles
        (contentProcessing · env (page.chars ++ ['\x00']) fileName) .faults) := by
  by_cases empty : (env.saveDir.strcat fileName).chars = []
  · refine Or.inr ⟨fun all => all.1.1 empty, ?_⟩
    simp only [contentProcessing, mkdirs, if_pos empty, Outcome.faults_bind]
    exact .const _
  obtain ⟨directories, made⟩ := mkdirs_nonempty empty
  by_cases opens : env.opens (cutSlash (env.saveDir.strcat fileName)) = true
  · obtain ⟨result, settles, loop⟩ := extractLinks_settles (LinkScan.ahead_start page)
    have saved : CString.ofBlock (page.chars ++ ['\x00']) = page :=
      CString.ext (cstr_append_nul page.nulFree)
    rcases loop with ⟨closed, links, rfl, targets⟩ | ⟨unclosed, rfl⟩
    · refine Or.inl ⟨⟨empty, opens⟩, closed,
        ⟨directories, cutSlash (env.saveDir.strcat fileName), page, links⟩, ?_, rfl,
        targets⟩
      simp only [contentProcessing, made, Outcome.returns_bind, opens, saved]
      exact settles.bind_returns (.const _)
    · refine Or.inr ⟨fun all => unclosed all.2, ?_⟩
      simp only [contentProcessing, made, Outcome.returns_bind, opens]
      exact settles.bind_faults
  · refine Or.inr ⟨fun all => opens all.1.2, ?_⟩
    simp only [contentProcessing, made, Outcome.returns_bind,
      if_neg opens]
    exact .const _

end WebCrawl
