import WebCrawl.CString

/-!
# Lists of pages

The linked lists of `list.c`, with the empty list for `NULL`.  Removing the
head of an empty list dereferences `NULL`.
-/

namespace WebCrawl

abbrev PageList := List CString

def listAdd (l : PageList) (newPage : CString) : PageList :=
  newPage :: l

def listRem : PageList → Option (CString × PageList)
  | [] => none
  | page :: next => some (page, next)

def listEmpty : PageList → Bool
  | [] => true
  | _ :: _ => false

/-- `list_check`, where two strings are equal when `strcmp` returns 0. -/
def listCheck : PageList → CString → Bool
  | [], _ => false
  | page :: next, newPage => if page = newPage then true else listCheck next newPage

@[simp]
theorem mem_listAdd {l : PageList} {newPage page : CString} :
    page ∈ listAdd l newPage ↔ page = newPage ∨ page ∈ l := by
  simp [listAdd]

@[simp]
theorem listRem_eq_some {l rest : PageList} {page : CString} :
    listRem l = some (page, rest) ↔ l = page :: rest := by
  cases l <;> simp [listRem]

@[simp]
theorem listEmpty_iff {l : PageList} : listEmpty l = true ↔ l = [] := by
  cases l <;> simp [listEmpty]

@[simp]
theorem listCheck_iff {l : PageList} {newPage : CString} :
    listCheck l newPage = true ↔ newPage ∈ l := by
  induction l with
  | nil => simp [listCheck]
  | cons page next ih =>
      by_cases same : page = newPage
      · simp [listCheck, same]
      · simp [listCheck, same, Ne.symm same, ih]

@[simp]
theorem listCheck_eq_false {l : PageList} {newPage : CString} :
    listCheck l newPage = false ↔ newPage ∉ l := by
  rw [← Bool.not_eq_true, listCheck_iff]

end WebCrawl
