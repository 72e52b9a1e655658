import Mathlib

/-! # The Scrollback cache

`core_session/scrollback/cache.rs`: the history rows one client holds for a Pane, by position. The map
of rows is the list of its entries by rising position. Positions are `u64`: the sum that ends a page and
the difference that counts its rows wrap, as in a build without overflow checks (with them the sum
panics). The other sums are of positions below the total. The revision, the session and `covers` are left
out. -/

namespace SpaceTerm.Scrollback

def firstPageRows : Nat := 200
def maxPageRows : Nat := 500
def maxPagesInFlight : Nat := 4
def maxCachedRows : Nat := 10000

structure History where
  epoch : Nat := 0
  oldest : Nat := 0
  total : Nat := 0
  deriving DecidableEq

/-- The positions from `start` up to but not including `stop`. -/
structure Range where
  start : Nat
  stop : Nat
  deriving DecidableEq

instance : Membership Nat Range := ⟨fun r p => r.start ≤ p ∧ p < r.stop⟩

theorem Range.mem_iff {p : Nat} {r : Range} : p ∈ r ↔ r.start ≤ p ∧ p < r.stop := Iff.rfl

instance (p : Nat) (r : Range) : Decidable (p ∈ r) := inferInstanceAs (Decidable (_ ∧ _))

structure PageRequest where
  epoch : Nat
  start : Nat
  rows : Nat
  deriving DecidableEq

def PageRequest.range (r : PageRequest) : Range := ⟨r.start, r.start + r.rows⟩

variable {Row : Type}

structure Cache (Row : Type) where
  history : History := {}
  rows : List (Nat × Row) := []
  inFlight : List PageRequest := []
  settled : List Range := []
  requested : Bool := false

/-- `BTreeMap::insert`. -/
def insertRow (position : Nat) (row : Row) : List (Nat × Row) → List (Nat × Row)
  | [] => [(position, row)]
  | entry :: rows =>
    if position < entry.1 then (position, row) :: entry :: rows
    else if position = entry.1 then (position, row) :: rows
    else entry :: insertRow position row rows

def absDiff (a b : Nat) : Nat := (a - b) + (b - a)

/-- The loop of `evict`, with at most `turns` turns. -/
def evictRows (focus : Nat) : Nat → List (Nat × Row) → List (Nat × Row)
  | 0, rows => rows
  | turns + 1, rows =>
    if rows.length > maxCachedRows then
      match rows.head?, rows.getLast? with
      | some first, some last =>
        evictRows focus turns
          (if absDiff focus first.1 ≥ absDiff focus last.1 then rows.tail else rows.dropLast)
      | _, _ => rows
    else rows

/-- The parts of `run` that `sent` does not cover. -/
def Range.without (part sent : Range) : List Range :=
  if sent.stop ≤ part.start ∨ part.stop ≤ sent.start then [part]
  else [⟨part.start, sent.start⟩, ⟨sent.stop, part.stop⟩].filter fun piece => piece.start < piece.stop

def subtract (run : Range) (asked : List Range) : List Range :=
  asked.foldl (fun parts sent => parts.flatMap (·.without sent)) [run]

def gaps (stop : Nat) : Nat → List Nat → List Range
  | cursor, [] => if cursor < stop then [⟨cursor, stop⟩] else []
  | cursor, position :: positions =>
    (if position > cursor then [⟨cursor, position⟩] else []) ++ gaps stop (position + 1) positions

def distance (focus : Nat) (run : Range) : Nat :=
  if focus < run.start then run.start - focus else focus - (run.stop - 1)

/-- A `u64` after a sum or a difference. -/
def wrap (n : Nat) : Nat := n % 2 ^ 64

/-- The pages one run is carved into while slots are free, from the end nearest the reader. -/
def carve (focus : Nat) : Nat → Bool → Range → List Range
  | 0, _, _ => []
  | slots + 1, requested, run =>
    if run.start < run.stop then
      let size := if requested then maxPageRows else firstPageRows
      let page : Range := if focus < run.stop then ⟨run.start, min (wrap (run.start + size)) run.stop⟩
        else ⟨max (run.stop - size) run.start, run.stop⟩
      let rest : Range := if page.start = run.start then { run with start := page.stop }
        else { run with stop := page.start }
      page :: carve focus slots true rest
    else []

def pages (focus : Nat) : Nat → Bool → List Range → List Range
  | _, _, [] => []
  | slots, requested, run :: runs =>
    let carved := carve focus slots requested run
    carved ++ pages focus (slots - carved.length) (requested || !carved.isEmpty) runs

/-- The rows of a page, as a `u16` or a page's most. -/
def pageRows (page : Range) : Nat :=
  let rows := wrap (page.stop + 2 ^ 64 - page.start)
  if rows < 2 ^ 16 then rows else maxPageRows

namespace Cache

def retains (c : Cache Row) (p : Nat) : Bool := c.history.oldest ≤ p && p < c.history.total

def clear (c : Cache Row) : Cache Row := { c with rows := [], settled := [], requested := false }

def observe (c : Cache Row) (history : History) : Cache Row :=
  let c' := if history.epoch = c.history.epoch then c else c.clear
  let c' := if history = c.history then c' else { c' with settled := [] }
  { c' with
    history := history
    rows := c'.rows.filter fun entry => history.oldest ≤ entry.1 && entry.1 < history.total }

def evict (c : Cache Row) (focus : Nat) : Cache Row :=
  { c with rows := evictRows focus c.rows.length c.rows }

/-- The rows of a page at their positions. -/
def placed (start : Nat) (rows : List Row) : List (Nat × Row) :=
  rows.zipIdx.map fun entry => (start + entry.2, entry.1)

def kept (c : Cache Row) (start : Nat) (rows : List Row) : List (Nat × Row) :=
  (placed start rows).filter fun entry => c.retains entry.1

def place (c : Cache Row) (entries : List (Nat × Row)) : Cache Row :=
  { c with rows := entries.foldl (fun rows entry => insertRow entry.1 entry.2 rows) c.rows }

def insert (c : Cache Row) (start : Nat) (rows : List Row) (focus : Nat) : Cache Row :=
  if (c.kept start rows).isEmpty then c else (c.place (c.kept start rows)).evict focus

def page (c : Cache Row) (request : PageRequest) (answer : Option (Nat × Nat × List Row))
    (focus : Nat) : Cache Row :=
  let c := { c with inFlight := c.inFlight.erase request }
  if request.epoch ≠ c.history.epoch then c
  else
    let c := { c with settled := c.settled ++ [request.range] }
    match answer with
    | none => c
    | some (epoch, start, rows) =>
      if epoch ≠ c.history.epoch then c
      else
        let c := if start > request.start ∧ start > c.history.oldest then
          { c with
            history := { c.history with oldest := min start c.history.total }
            rows := c.rows.filter fun entry => min start c.history.total ≤ entry.1 }
          else c
        c.insert start rows focus

def forgetInFlight (c : Cache Row) : Cache Row := { c with inFlight := [] }

def unsent (c : Cache Row) (requests : List PageRequest) : Cache Row :=
  { c with inFlight := requests.foldl List.erase c.inFlight }

def retained (c : Cache Row) (range : Range) : Range :=
  let start := max range.start c.history.oldest
  ⟨start, max (min range.stop c.history.total) start⟩

/-- The runs of positions to ask for. -/
def missing (c : Cache Row) (wanted : Range) : List Range :=
  let wanted := c.retained wanted
  let asked := ((c.inFlight.filter (·.epoch == c.history.epoch)).map PageRequest.range) ++ c.settled
  (gaps wanted.stop wanted.start ((c.rows.map Prod.fst).filter (· ∈ wanted))).flatMap (subtract · asked)

def request (c : Cache Row) (wanted : Range) (focus : Nat) : Cache Row × List PageRequest :=
  let runs := (c.missing wanted).insertionSort (fun a b => distance focus a ≤ distance focus b)
  let requests := (pages focus (maxPagesInFlight - c.inFlight.length) c.requested runs).map
    fun page => ⟨c.history.epoch, page.start, pageRows page⟩
  ({ c with
    inFlight := c.inFlight ++ requests
    requested := c.requested || !requests.isEmpty }, requests)

end Cache
end SpaceTerm.Scrollback
