import WebCrawl.PathDistribution
import WebCrawl.PathsFile
import WebCrawl.WordExpansion

/-!
# The list of the saved sites

`bashls` writes a line for each entry of the directory with the saved sites, and
`getFileOfPaths` reads the lines back.  The script has its words unquoted: the directory
is split at blanks when it is handed to `ls`, and the lines that `ls` writes, the name of
each entry and its path are split at newlines; then each field is matched against the
names of files.  So it lists the paths of the entries when the shell takes the names as
they are.
-/

namespace WebCrawl

open WordExpansion (Plain expand substituted)

/-- What `IFS` has before the script sets it, and afterwards. -/
def blanks : List Char := [' ', '\t', '\n']

def newlineOnly : List Char := ['\n']

/-- The characters that make a word a pattern for names of files. -/
def patternCharacters : List Char := ['*', '?', '[', '\\']

/-- What the shell gets from outside: the output of `ls -1` for some words, and the words
that a field stands for when the file with the paths is there or not. -/
structure Shell where
  ls : List (List Char) → List Char
  pathnames : Option (List Char) → List Char → List (List Char)
  plain : ∀ pathsfile word, (∀ char ∈ word, char ∉ patternCharacters) →
    pathnames pathsfile word = [word]

/-- A shell in which `ls` writes the given output and no field is a pattern that matches. -/
def Shell.listing (output : List Char) : Shell where
  ls := fun _ => output
  pathnames := fun _ word => [word]
  plain := fun _ _ _ => rfl

/-- `echo` with its output appended to a file, which is made if there is none. -/
def echoTo (file : Option (List Char)) (words : List (List Char)) : Option (List Char) :=
  some (file.getD [] ++ List.intercalate [' '] words ++ ['\n'])

/-- What `bashls` leaves of `pathsfile`, which it removes first.  The name of the
directory is one line; so the first word of `echo` has a slash and is no option. -/
def bashls (shell : Shell) (dir : CString) : Option (List Char) :=
  let files := substituted '\n' (shell.ls (expand (shell.pathnames none) blanks dir.chars))
  (expand (shell.pathnames none) newlineOnly files).foldl (fun pathsfile file =>
    echoTo pathsfile
      (expand (shell.pathnames pathsfile) newlineOnly (dir.chars ++ '/' :: file))) none

/-- A directory and its entries, with names that the shell takes as they are. -/
structure Listing where
  dir : CString
  files : List CString
  dirPlain : Plain blanks patternCharacters dir.chars
  filesPlain : ∀ file ∈ files, Plain newlineOnly patternCharacters file.chars

/-- `ls` can read the directory and writes a line for each entry. -/
def Shell.Gives (shell : Shell) (listing : Listing) : Prop :=
  shell.ls [listing.dir.chars] = listing.files.flatMap fun file => file.chars ++ ['\n']

def slash : CString :=
  CString.ofBlock ['/']

theorem slash_chars : slash.chars = ['/'] := by
  decide

/-- The path of an entry, `$1/$file`. -/
def Listing.path (listing : Listing) (file : CString) : CString :=
  (listing.dir.strcat slash).strcat file

def Listing.paths (listing : Listing) : List CString :=
  listing.files.map listing.path

section Names

variable {listing : Listing} {shell : Shell}

theorem Listing.path_chars (file : CString) :
    (listing.path file).chars = listing.dir.chars ++ '/' :: file.chars := by
  simp [path, slash_chars]

theorem Listing.slash_mem_path (file : CString) : '/' ∈ (listing.path file).chars := by
  simp [path, slash_chars]

/-- A path has a slash, so none is the word that ends the workers' loop. -/
theorem Listing.stop_not_mem (listing : Listing) : stop ∉ listing.paths := by
  intro member
  obtain ⟨file, _, isStop⟩ := List.mem_map.mp member
  have inStop : '/' ∈ stop.chars := isStop ▸ slash_mem_path file
  exact absurd inStop (by decide)

/-- The shell takes the path of an entry as it is, too. -/
theorem Listing.pathPlain {file : CString} (member : file ∈ listing.files) :
    Plain newlineOnly patternCharacters (listing.path file).chars := by
  have dir := listing.dirPlain
  have entry := listing.filesPlain file member
  have fewer : newlineOnly ⊆ blanks := by decide
  have whole : ∀ char ∈ listing.dir.chars, char ∉ newlineOnly := fun char inDir separates =>
    dir.whole char inDir (fewer separates)
  refine ⟨List.ne_nil_of_mem (slash_mem_path file), ?_, ?_⟩
  · rw [path_chars, List.forall_mem_append, List.forall_mem_cons]
    exact ⟨whole, by decide, entry.whole⟩
  · rw [path_chars, List.forall_mem_append, List.forall_mem_cons]
    exact ⟨dir.noPattern, by decide, entry.noPattern⟩

theorem Listing.path_oneLine {file : CString} (member : file ∈ listing.files) :
    ∀ ch ∈ (listing.path file).chars, isNewline ch = false := by
  intro ch inPath
  rw [isNewline, decide_eq_false_iff_not]
  rintro rfl
  exact (Listing.pathPlain member).whole _ inPath (by decide)

end Names

section Writing

variable {listing : Listing} {shell : Shell}

/-- The lines of some entries that are appended to the file. -/
theorem echo_paths {files : List CString} (areFiles : files ⊆ listing.files)
    (written : List Char) :
    (files.map CString.chars).foldl (fun pathsfile file =>
        echoTo pathsfile (expand (shell.pathnames pathsfile) newlineOnly
          (listing.dir.chars ++ '/' :: file))) (some written) =
      some (written ++ files.flatMap fun file => (listing.path file).chars ++ ['\n']) := by
  induction files generalizing written with
  | nil => simp
  | cons file files ih =>
      rw [List.cons_subset] at areFiles
      have word := WordExpansion.expand_word (shell.plain (some written))
        (Listing.pathPlain areFiles.1)
      rw [List.map_cons, List.foldl_cons, ← Listing.path_chars, word, echoTo, Option.getD_some,
        ih areFiles.2, List.flatMap_cons]
      simp

/-- There is a file with the paths exactly when there are entries. -/
theorem bashls_eq (gives : shell.Gives listing) :
    bashls shell listing.dir = if listing.files = [] then none
      else some (listing.files.flatMap fun file => (listing.path file).chars ++ ['\n']) := by
  have dir := WordExpansion.expand_word (shell.plain none) listing.dirPlain
  have lines : shell.ls [listing.dir.chars] =
      (listing.files.map CString.chars).flatMap (· ++ ['\n']) := by
    rw [gives, List.flatMap_map]
  have entries := @WordExpansion.expand_lines _ _ (shell.pathnames none) newlineOnly
    patternCharacters '\n' (by decide) (shell.plain none) (listing.files.map CString.chars)
    (List.forall_mem_map.mpr listing.filesPlain)
  rw [bashls, dir, lines, entries]
  cases isFiles : listing.files with
  | nil => rfl
  | cons file files =>
      have areFiles : file :: files ⊆ listing.files := by rw [isFiles]; simp
      rw [List.cons_subset] at areFiles
      have word := WordExpansion.expand_word (shell.plain none) (Listing.pathPlain areFiles.1)
      rw [List.map_cons, List.foldl_cons, ← Listing.path_chars, word, echoTo, Option.getD_none,
        echo_paths areFiles.2, List.flatMap_cons, if_neg (List.cons_ne_nil file files)]
      simp

end Writing

section Reading

variable {listing : Listing} {shell : Shell}

/-- The lines are read back as the paths that were written. -/
theorem pathContents_lines {files : List CString} (areFiles : files ⊆ listing.files) :
    pathContents (files.flatMap fun file => (listing.path file).chars ++ ['\n']) =
      files.map listing.path := by
  induction files with
  | nil => rfl
  | cons file files ih =>
      rw [List.cons_subset] at areFiles
      have nonempty : (listing.path file).chars ≠ [] :=
        List.ne_nil_of_mem (Listing.slash_mem_path file)
      have same : CString.ofBlock (listing.path file).chars = listing.path file := by
        ext1
        exact cstr_of_nulFree (listing.path file).nulFree
      rw [List.flatMap_cons, List.append_assoc, List.singleton_append,
        pathContents_next (Listing.path_oneLine areFiles.1), if_neg nonempty, same,
        ih areFiles.2]
      rfl

/-- `jobExecutor` gets the list of the paths that `bashls` wrote. -/
theorem getFileOfPaths_bashls (gives : shell.Gives listing) :
    Outcome.Settles (getFileOfPaths · (bashls shell listing.dir) 16)
      (.returns ⟨chain 0 listing.paths, chainHead 0 listing.paths,
        toInt listing.paths.length⟩) := by
  rw [bashls_eq gives]
  cases isFiles : listing.files with
  | nil =>
      have noPaths : listing.paths = [] := by rw [Listing.paths, isFiles, List.map_nil]
      rw [if_pos rfl, noPaths]
      exact Outcome.Settles.const _
  | cons file files =>
      have contents := @pathContents_lines listing (file :: files) (by rw [isFiles]; simp)
      have paths : listing.paths = (file :: files).map listing.path := by
        rw [Listing.paths, isFiles]
      have nulFree : '\x00' ∉ (file :: files).flatMap fun file =>
          (listing.path file).chars ++ ['\n'] := by
        simp [(listing.path _).nulFree]
      have settles := getFileOfPaths_settles (by decide : 0 < 16) nulFree
      rw [contents, List.map_cons, returnPaths_readerOf, ← List.map_cons, ← paths] at settles
      rw [if_neg (List.cons_ne_nil file files)]
      have head : chainHead 0 listing.paths = some 0 := by rw [paths]; rfl
      rw [head]
      exact settles

end Reading

end WebCrawl
