import PuppyTalk.Paging

namespace PuppyTalk

/-- `split_page` of rows fetched with one more than the page takes. -/
def splitPage (rows : List α) (size : Nat) : List α × Bool :=
  (rows.take size, decide (size < rows.length))

/-- `offset_of`, for pages that count from 1. -/
def offsetOf (page size : Nat) : Nat := (page - 1) * size

structure PaginatedResponse (α : Type) where
  items : List α
  hasMore : Bool
  total : Nat

def PaginatedResponse.fromPage (items : List α) (page size total : Nat) : PaginatedResponse α where
  items := items
  hasMore := decide (page * size < total)
  total := total

theorem splitPage_take (l : List α) (size : Nat) :
    splitPage (l.take (size + 1)) size = (l.take size, decide (size < l.length)) := by
  have hmin : min size (size + 1) = size := by omega
  have hlen : size < min (size + 1) l.length ↔ size < l.length := by omega
  simp only [splitPage, List.take_take, List.length_take, hmin, hlen]

end PuppyTalk
