import Typings.Proofs.ContentApi.Pagination

/-!
# Reading a whole list

Of a server that answers each request with items of one list, from where the request asks on, a
fetch reads every item once and in order. How many items an answer has is up to the server, as long
as there is one where any are left.
-/

namespace Typings

/-- Intervals that follow one another without a gap from the first number to the last. -/
def Tiles : Nat → Nat → List (Nat × Nat) → Prop
  | first, last, [] => first = last
  | first, last, (start, stop) :: rest => start = first ∧ start ≤ stop ∧ Tiles stop last rest

namespace Tiles

variable {first last : Nat} {spans : List (Nat × Nat)}

theorem le (h : Tiles first last spans) : first ≤ last := by
  induction spans generalizing first with
  | nil => exact Nat.le_of_eq h
  | cons span rest ih =>
    obtain ⟨rfl, hle, hrest⟩ := h
    exact Nat.le_trans hle (ih hrest)

theorem mem_iff (h : Tiles first last spans) (n : Nat) :
    (first ≤ n ∧ n < last) ↔ ∃ span ∈ spans, span.1 ≤ n ∧ n < span.2 := by
  induction spans generalizing first with
  | nil =>
    have : first = last := h
    constructor
    · intro hn
      omega
    · simp
  | cons span rest ih =>
    obtain ⟨start, stop⟩ := span
    obtain ⟨rfl, hle, hrest⟩ := h
    have := hrest.le
    rw [List.exists_mem_cons_iff, ← ih hrest]
    omega

theorem le_of_mem (h : Tiles first last spans) {span : Nat × Nat} (hspan : span ∈ spans) :
    first ≤ span.1 := by
  induction spans generalizing first with
  | nil => cases hspan
  | cons head rest ih =>
    obtain ⟨rfl, hle, hrest⟩ := h
    rcases List.mem_cons.mp hspan with rfl | hspan
    · exact Nat.le_refl _
    · exact Nat.le_trans hle (ih hrest hspan)

theorem pairwise (h : Tiles first last spans) : spans.Pairwise fun a b => a.2 ≤ b.1 := by
  induction spans generalizing first with
  | nil => exact .nil
  | cons span rest ih =>
    obtain ⟨-, -, hrest⟩ := h
    exact List.pairwise_cons.mpr ⟨fun later hlater => hrest.le_of_mem hlater, ih hrest⟩

end Tiles

/-- How many items a reply brings. -/
def Reply.itemCount [LoneSurrogates] (reply : Reply) : Nat :=
  match Page.ofReply reply with
  | .ok page => page.items.length
  | .error _ => 0

theorem Reply.Bears.itemCount_eq [LoneSurrogates] {reply : Reply} {sheet : Sheet} (h : reply.Bears sheet) :
    reply.itemCount = sheet.items.length := by
  rw [Reply.itemCount, h.ofReply_eq]
  rfl

/-- The parts of the list that requests and their replies are about: from the items skipped to those
read. -/
def spans [LoneSurrogates] (requests : List Request) (replies : List Reply) : List (Nat × Nat) :=
  List.zipWith (fun request reply => (request.skip, request.skip + reply.itemCount)) requests replies

/-- The reply to a request for a part of the list: items from where the request asks on, at least one
if any are left, and the length of the whole list. A server that keeps to a limit of one or more
items answers so. -/
def Answers [LoneSurrogates] (items : List Data) (request : Request) (reply : Reply) : Prop :=
  ∃ count sheet, 0 < count ∧ reply.Bears sheet ∧ sheet.items = (items.drop request.skip).take count ∧
    sheet.total = some (.int items.length)

theorem contentTypes_of_answer [LoneSurrogates] {items : List Data} {cts : List ContentType}
    (hvalid : items.map ContentType.ofData = cts.map .accepted) {skip count : Nat} {sheet : Sheet} {reply : Reply}
    (hitems : sheet.items = (items.drop skip).take count) (hbears : reply.Bears sheet) :
    sheet.contentTypes = (cts.drop skip).take count := by
  obtain ⟨-, -, -, -, hsheet⟩ := hbears
  rw [hitems, List.map_take, List.map_drop, hvalid, ← List.map_drop, ← List.map_take] at hsheet
  exact (List.map_inj_right fun _ _ => Checked.accepted.inj).mp hsheet.symm

namespace Client

section

variable [LoneSurrogates] (c : Client) (url : String)

theorem readFrom_answers {items : List Data} {cts : List ContentType}
    (hvalid : items.map ContentType.ofData = cts.map .accepted) {skip : Nat} (hskip : skip ≤ items.length)
    (before : List ContentType) {replies : List Reply}
    (hanswers : ∀ (k : Nat) (request : Request) (reply : Reply),
      (c.readFrom url skip before replies).requests[k]? = some request → replies[k]? = some reply →
        Answers items request reply)
    (hreplies : max 1 (items.length - skip) ≤ replies.length) :
    (c.readFrom url skip before replies).result = .ok (before ++ cts.drop skip) ∧
      Tiles skip items.length (spans (c.readFrom url skip before replies).requests replies) ∧
      (c.readFrom url skip before replies).requests.length ≤ max 1 (items.length - skip) := by
  induction replies generalizing skip before with
  | nil =>
    rw [List.length_nil] at hreplies
    omega
  | cons reply rest ih =>
    obtain ⟨count, sheet, hcount, hbears, hitems, htotal⟩ := hanswers 0 _ reply
      (c.getElem?_zero_requests_readFrom url skip before (reply :: rest)) rfl
    have hcts : sheet.contentTypes = (cts.drop skip).take count := contentTypes_of_answer hvalid hitems hbears
    have hlength : items.length = cts.length := by
      simpa using congrArg List.length hvalid
    obtain ⟨n, hn⟩ : ∃ n, sheet.items.length = n := ⟨_, rfl⟩
    have hcut : n = min count (items.length - skip) := by
      rw [← hn, hitems, List.length_take, List.length_drop]
      rfl
    -- What the page holds and what comes after it are what there was to read.
    have hrest : sheet.contentTypes ++ cts.drop (skip + n) = cts.drop skip := by
      have htaken : ((cts.drop skip).take count).length = n := by
        rw [List.length_take, List.length_drop, hcut, hlength]
      rw [hcts, ← List.drop_drop, ← htaken]
      exact List.prefix_iff_eq_append.mp (List.take_prefix count _)
    have hspan : reply.itemCount = n := hbears.itemCount_eq.trans hn
    by_cases hnext : sheet.GoesOn (skip + sheet.items.length)
    · rw [c.readFrom_next url hbears skip hnext] at hanswers ⊢
      obtain ⟨hne, total, m, hsome, hcounts, hlt⟩ := hnext
      rw [htotal] at hsome
      cases hsome
      cases hcounts
      have hpos : 0 < sheet.items.length := List.length_pos_iff.mpr hne
      rw [hn] at hlt hpos hanswers ⊢
      rw [List.length_cons] at hreplies
      obtain ⟨hresult, htiles, hrequests⟩ :=
        ih (by omega) (before ++ sheet.contentTypes) (fun k => hanswers (k + 1)) (by omega)
      refine ⟨?_, ⟨rfl, Nat.le_add_right _ _, ?_⟩, ?_⟩
      · rw [hresult, List.append_assoc, hrest]
      · rw [hspan]
        exact htiles
      · rw [List.length_cons]
        omega
    · rw [c.readFrom_last url hbears skip hnext]
      have hend : skip + n = items.length := by
        by_cases hne : sheet.items = []
        · rw [hne, List.length_nil] at hn
          omega
        · by_contra hmore
          refine hnext ⟨hne, _, _, htotal, .int _, ?_⟩
          rw [hn]
          omega
      rw [hend, List.drop_of_length_le (Nat.le_of_eq hlength.symm), List.append_nil] at hrest
      refine ⟨by rw [hrest], ⟨rfl, Nat.le_add_right _ _, ?_⟩, Nat.le_max_left _ _⟩
      rw [hspan]
      exact hend

/-- A fetch from a server that answers every request with items of one list: all of them are read,
in order; the parts that the requests are about follow one another from the start of the list to its
end, with no item in two of them and none left out; and there are at most as many requests as items,
or the one that finds the list empty. -/
theorem fetch_answers (space environment : String) {items : List Data} {cts : List ContentType}
    (hvalid : items.map ContentType.ofData = cts.map .accepted) {replies : List Reply}
    (hanswers : ∀ (k : Nat) (request : Request) (reply : Reply),
      (c.fetch space environment replies).requests[k]? = some request → replies[k]? = some reply →
        Answers items request reply)
    (hreplies : max 1 items.length ≤ replies.length) :
    let fetch := c.fetch space environment replies
    fetch.result = .ok cts ∧
    Tiles 0 items.length (spans fetch.requests replies) ∧
    (spans fetch.requests replies).Pairwise (fun a b => a.2 ≤ b.1) ∧
    (∀ n, n < items.length ↔ ∃ span ∈ spans fetch.requests replies, span.1 ≤ n ∧ n < span.2) ∧
    fetch.requests.length ≤ max 1 items.length := by
  obtain ⟨hresult, htiles, hrequests⟩ := c.readFrom_answers (c.url space environment) hvalid
    (Nat.zero_le _) [] hanswers hreplies
  refine ⟨hresult, htiles, htiles.pairwise, fun n => ?_, hrequests⟩
  exact ⟨fun hn => (htiles.mem_iff n).mp ⟨Nat.zero_le n, hn⟩, fun hn => ((htiles.mem_iff n).mpr hn).2⟩

end

theorem fetch_answers_three :
    ((["a", "b", "c"].map Sheet.bareItem).map ContentType.ofData =
      (["a", "b", "c"].map Sheet.bareType).map .accepted) ∧
    (∀ (k : Nat) (request : Request) (reply : Reply),
      (({} : Client).fetch "s" "e" [Reply.firstOfThree, Reply.lastOfThree, .timedOut]).requests[k]? =
        some request → [Reply.firstOfThree, Reply.lastOfThree, .timedOut][k]? = some reply →
        Answers (["a", "b", "c"].map Sheet.bareItem) request reply) ∧
    (({} : Client).fetch "s" "e" [Reply.firstOfThree, Reply.lastOfThree, .timedOut]).result =
      .ok (["a", "b", "c"].map Sheet.bareType) := by
  have hvalid : (["a", "b", "c"].map Sheet.bareItem).map ContentType.ofData =
      (["a", "b", "c"].map Sheet.bareType).map .accepted := rfl
  have hanswers : ∀ (k : Nat) (request : Request) (reply : Reply),
      (({} : Client).fetch "s" "e" [Reply.firstOfThree, Reply.lastOfThree, .timedOut]).requests[k]? =
        some request → [Reply.firstOfThree, Reply.lastOfThree, .timedOut][k]? = some reply →
        Answers (["a", "b", "c"].map Sheet.bareItem) request reply := by
    intro k request reply hrequest hreply
    rw [fetch_ofThree] at hrequest
    match k with
    | 0 =>
      cases hrequest
      cases hreply
      exact ⟨2, _, Nat.zero_lt_two, Reply.bears_firstOfThree, rfl, rfl⟩
    | 1 =>
      cases hrequest
      cases hreply
      exact ⟨1, _, Nat.zero_lt_one, Reply.bears_lastOfThree, rfl, rfl⟩
    | k + 2 => cases hrequest
  exact ⟨hvalid, hanswers, (fetch_answers {} "s" "e" hvalid hanswers (by decide)).1⟩

end Client

end Typings
