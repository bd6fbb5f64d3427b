import Rocm.Lib.Ring

/-!
# Intrusive lists (`listx.h`)

The functions of `listx.h` over the links of arbitrary nodes. A function gives `none` where it
would follow a pointer that points to no `list_head`.
-/

namespace Rocm

open Ring

variable {α : Type} [DecidableEq α]

/-- `INIT_LIST_HEAD` (`listx.h:94-98`). -/
def initListHead (list : α) (l : Links α) : Links α := selfLink list l

/-- `__list_add` (`listx.h:107-114`). -/
def listAddBetween (new : α) (prev next : Option α) (l : Links α) : Option (Links α) :=
  match prev, next with
  | some prev, some next => some (splice new prev next l)
  | _, _ => none

/-- `list_add` (`listx.h:124-127`). -/
def listAdd (new head : α) (l : Links α) : Option (Links α) :=
  listAddBetween new (some head) (l.next head) l

/-- `list_add_tail` (`listx.h:137-140`). -/
def listAddTail (new head : α) (l : Links α) : Option (Links α) :=
  listAddBetween new (l.prev head) (some head) l

/-- `__list_del` (`listx.h:150-154`). -/
def listDelBetween (prev next : Option α) (l : Links α) : Option (Links α) :=
  match prev, next with
  | some prev, some next => some (bypass prev next l)
  | _, _ => none

/-- `list_del` (`listx.h:163-166`). -/
def listDel (entry : α) (l : Links α) : Option (Links α) :=
  listDelBetween (l.prev entry) (l.next entry) l

/-- `list_empty` (`listx.h:189-192`). -/
def listEmpty (head : α) (l : Links α) : Bool := l.next head = some head

/-- `list_next` (`listx.h:202-208`). -/
def listNext (current : α) (l : Links α) : Option α :=
  if listEmpty current l then none else l.next current

end Rocm
