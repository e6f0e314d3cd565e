import WebCrawl.PrintedSeconds
import WebCrawl.RequestDecoding

/-!
# What fits into the buffers

`get` prints the page name into 10000 bytes, and `STATS` prints the time and two
counters into 73 bytes.  Page names have any length and the counters turn
negative when they overflow, so none of the texts is sure to fit.
-/

namespace WebCrawl

/-- What is printed into a buffer, with its NUL, if there is room. -/
def printInto (size : Nat) (text : List Char) : Outcome (List Char) :=
  if size < text.length + 1 then .faults else .returns (text ++ ['\x00'])

/-- The format of a `STATS` reply with its arguments. -/
def statsText (name verb : List Char) (elapsed : Nat) (pages bytes : Int) : List Char :=
  name ++ " up for ".toList ++ formatF (elapsedSeconds elapsed) ++ ", ".toList ++ verb ++
    " ".toList ++ decimal pages ++ " pages, ".toList ++ decimal bytes ++ " bytes.\n".toList

/-- The reply of the crawler. -/
def crawlerStats (elapsed : Nat) (pagesDownloaded bytesDownloaded : Int) :
    Outcome (List Char) :=
  printInto 73
    (statsText "Crawler".toList "downloaded".toList elapsed pagesDownloaded bytesDownloaded)

/-- The reply of the server. -/
def serverStats (elapsed : Nat) (pages bytes : Int) : Outcome (List Char) :=
  printInto 73 (statsText "Server".toList "served".toList elapsed pages bytes)

/-- The digits, signs included, that a `STATS` reply has besides the six behind
the point. -/
def statsDigits (elapsed : Nat) (pages bytes : Int) : Nat :=
  (Nat.toDigits 10 (wholeSeconds elapsed)).length + (decimal pages).length +
    (decimal bytes).length

/-- Nothing is stored behind a buffer. -/
def Fits (printed : Outcome (List Char)) : Prop :=
  ∃ message, printed = .returns message

theorem printInto_fits (size : Nat) (text : List Char) :
    Fits (printInto size text) ↔ text.length + 1 ≤ size := by
  rw [Fits, printInto]
  split
  next long => simp; omega
  next short => simp; omega

theorem statsText_length (name verb : List Char) (elapsed : Nat) (pages bytes : Int) :
    (statsText name verb elapsed pages bytes).length =
      name.length + verb.length + statsDigits elapsed pages bytes + 34 := by
  have upFor : " up for ".toList.length = 8 := rfl
  have comma : ", ".toList.length = 2 := rfl
  have blank : " ".toList.length = 1 := rfl
  have pagesWord : " pages, ".toList.length = 8 := rfl
  have bytesWord : " bytes.\n".toList.length = 8 := rfl
  simp only [statsText, List.length_append, formatF_length, statsDigits, upFor, comma, blank,
    pagesWord, bytesWord]
  omega

theorem crawlerStats_fits (elapsed : Nat) (pages bytes : Int) :
    Fits (crawlerStats elapsed pages bytes) ↔ statsDigits elapsed pages bytes ≤ 21 := by
  have crawler : "Crawler".toList.length = 7 := rfl
  have downloaded : "downloaded".toList.length = 10 := rfl
  rw [crawlerStats, printInto_fits, statsText_length, crawler, downloaded]
  omega

theorem serverStats_fits (elapsed : Nat) (pages bytes : Int) :
    Fits (serverStats elapsed pages bytes) ↔ statsDigits elapsed pages bytes ≤ 26 := by
  have server : "Server".toList.length = 6 := rfl
  have served : "served".toList.length = 6 := rfl
  rw [serverStats, printInto_fits, statsText_length, server, served]
  omega

/-- In its first ten thousand seconds the server has room for its reply. -/
theorem serverStats_fits_early {elapsed : Nat} (early : elapsed < 10000 * clocksPerSec)
    (pages bytes : Int) : Fits (serverStats elapsed (toInt pages) (toInt bytes)) := by
  have seconds : (Nat.toDigits 10 (wholeSeconds elapsed)).length ≤ 4 := by
    rw [clocksPerSec] at early
    rw [wholeSeconds_eq (by omega), Nat.length_toDigits_le_iff (by decide) (by decide)]
    omega
  have pagesDigits := decimal_length pages
  have bytesDigits := decimal_length bytes
  rw [serverStats_fits, statsDigits]
  omega

theorem getMessage_fits_iff (page : CString) :
    Fits (getMessage page) ↔ page.chars.length ≤ 9813 := by
  have fits := printInto_fits 10000 (requestText page)
  rw [requestText_length] at fits
  exact fits.trans (by omega)

/-- A request fits when the page name has at most 9813 characters, and a reply
when its numbers have at most 21 digits for the crawler and 26 for the server. -/
theorem messages_fit_iff (page : CString) (elapsed : Nat) (pages bytes : Int) :
    (Fits (getMessage page) ↔ page.chars.length ≤ 9813) ∧
      (Fits (crawlerStats elapsed pages bytes) ↔ statsDigits elapsed pages bytes ≤ 21) ∧
      (Fits (serverStats elapsed pages bytes) ↔ statsDigits elapsed pages bytes ≤ 26) :=
  ⟨getMessage_fits_iff page, crawlerStats_fits elapsed pages bytes,
    serverStats_fits elapsed pages bytes⟩

/-- A page whose name is one character too long. -/
def longPage : CString :=
  ⟨List.replicate 9814 'a', fun nul => absurd (List.eq_of_mem_replicate nul) (by decide)⟩

/-- The counters at the ends of the range of an `int`; the server has been up for
a day and four hours. -/
theorem messages_overflow :
    (¬ ∀ page, Fits (getMessage page)) ∧
      (¬ ∀ elapsed pages bytes, toInt pages = pages → toInt bytes = bytes →
        Fits (crawlerStats elapsed pages bytes)) ∧
      ¬ ∀ elapsed pages bytes, toInt pages = pages → toInt bytes = bytes →
        Fits (serverStats elapsed pages bytes) := by
  have most : toInt 2147483647 = 2147483647 := toInt_of_bounds (by decide) (by decide)
  have least : toInt (-2147483648) = -2147483648 := toInt_of_bounds (by decide) (by decide)
  refine ⟨fun fits => ?_, fun fits => ?_, fun fits => ?_⟩
  · have short := (getMessage_fits_iff longPage).mp (fits longPage)
    rw [longPage, List.length_replicate] at short
    exact absurd short (by decide)
  · have few := (crawlerStats_fits _ _ _).mp (fits 0 2147483647 (-2147483648) most least)
    exact absurd few (by decide)
  · have few := (serverStats_fits _ _ _).mp
      (fits 100800000000 2147483647 (-2147483648) most least)
    exact absurd few (by decide)

end WebCrawl
