import Typings.Proofs.ContentApi.Sheet

/-!
# Reading page by page

A fetch asks for each page where the one before it ends, goes on exactly while the page that it has
read calls for more, and gives what all its pages hold, in order. It ends as soon as the totals do
not grow. Of a server that answers from one list, it reads the whole list, each item once.
-/

namespace Typings

namespace Client

/-- The request for what comes after `skip` items. -/
def requestAt (c : Client) (url : String) (skip : Nat) : Request := ⟨url, skip, c.pageSize, c.timeout⟩

theorem le_getElem_of_pairwise_lt {ns : List Nat} (h : ns.Pairwise (· < ·)) {k : Nat} (hk : k < ns.length) :
    k ≤ ns[k] := by
  induction k with
  | zero => exact Nat.zero_le _
  | succ k ih =>
    have := ih (by omega)
    have := List.pairwise_iff_getElem.mp h k (k + 1) (by omega) hk (by omega)
    omega

variable [LoneSurrogates] (c : Client) (url : String)
  {reply : Reply} {sheet : Sheet} {replies : List Reply} {sheets : List Sheet}

/-! ## One step -/

theorem readFrom_last (h : reply.Bears sheet) (skip : Nat)
    (hlast : ¬ sheet.GoesOn (skip + sheet.items.length)) (before : List ContentType) (rest : List Reply) :
    c.readFrom url skip before (reply :: rest) =
      ⟨.ok (before ++ sheet.contentTypes), [c.requestAt url skip], rest⟩ := by
  have hpage : sheet.page.isLast (skip + sheet.items.length) = true := by
    rw [← Bool.not_eq_false, sheet.isLast_page_eq_false_iff]
    exact hlast
  rw [readFrom, h.ofReply_eq]
  exact if_pos hpage

theorem readFrom_next (h : reply.Bears sheet) (skip : Nat) (hnext : sheet.GoesOn (skip + sheet.items.length))
    (before : List ContentType) (rest : List Reply) :
    c.readFrom url skip before (reply :: rest) =
      let further := c.readFrom url (skip + sheet.items.length) (before ++ sheet.contentTypes) rest
      ⟨further.result, c.requestAt url skip :: further.requests, further.left⟩ := by
  have hpage : ¬ sheet.page.isLast (skip + sheet.items.length) = true := by
    rw [Bool.not_eq_true, sheet.isLast_page_eq_false_iff]
    exact hnext
  rw [readFrom, h.ofReply_eq]
  exact if_neg hpage

/-! ## Any replies -/

theorem getElem?_zero_requests_readFrom (skip : Nat) (before : List ContentType) (replies : List Reply) :
    (c.readFrom url skip before replies).requests[0]? = some (c.requestAt url skip) := by
  cases replies with
  | nil => rfl
  | cons reply rest =>
    rw [readFrom]
    split
    · rfl
    · dsimp only
      split <;> rfl

theorem length_requests_readFrom_pos (skip : Nat) (before : List ContentType) (replies : List Reply) :
    0 < (c.readFrom url skip before replies).requests.length :=
  (List.getElem?_eq_some_iff.mp (c.getElem?_zero_requests_readFrom url skip before replies)).1

theorem length_requests_readFrom (skip : Nat) (before : List ContentType) (replies : List Reply) :
    (c.readFrom url skip before replies).requests.length ≤ replies.length + 1 := by
  induction replies generalizing skip before with
  | nil => exact Nat.le_refl _
  | cons reply rest ih =>
    rw [readFrom]
    split
    · simp
    · rename_i page _
      dsimp only
      split
      · simp
      · have := ih (skip + page.items.length) (before ++ page.contentTypes)
        simp only [List.length_cons]
        omega

theorem pairwise_skip_readFrom (skip : Nat) (before : List ContentType) (replies : List Reply) :
    (∀ request ∈ (c.readFrom url skip before replies).requests, skip ≤ request.skip) ∧
      ((c.readFrom url skip before replies).requests.map Request.skip).Pairwise (· < ·) := by
  induction replies generalizing skip before with
  | nil => simp [readFrom]
  | cons reply rest ih =>
    rw [readFrom]
    split
    · simp
    · rename_i page _
      dsimp only
      split
      · simp
      · rename_i hlast
        obtain ⟨hle, hpairwise⟩ := ih (skip + page.items.length) (before ++ page.contentTypes)
        -- Reading only goes on after a page that has items.
        have hlength : 0 < page.items.length := by
          rw [List.length_pos_iff]
          rintro hnil
          simp [Page.isLast, hnil] at hlast
        constructor
        · intro request hrequest
          rcases List.mem_cons.mp hrequest with rfl | hrequest
          · exact Nat.le_refl _
          · have := hle request hrequest
            omega
        · rw [List.map_cons, List.pairwise_cons]
          refine ⟨fun later hlater => ?_, hpairwise⟩
          obtain ⟨request, hrequest, rfl⟩ := List.mem_map.mp hlater
          have := hle request hrequest
          dsimp only
          omega

theorem exists_sheets_of_readFrom_eq_ok {skip : Nat} {before cts : List ContentType} {replies : List Reply}
    (h : (c.readFrom url skip before replies).result = .ok cts) :
    ∃ sheets,
      List.Forall₂ Reply.Bears (replies.take (c.readFrom url skip before replies).requests.length) sheets ∧
      cts = before ++ sheets.flatMap Sheet.contentTypes := by
  induction replies generalizing skip before with
  | nil => cases h
  | cons reply rest ih =>
    cases hreply : Page.ofReply reply with
    | error fault =>
      rw [readFrom, hreply] at h
      cases h
    | ok page =>
      obtain ⟨sheet, hbears, -⟩ := Page.ofReply_eq_ok_iff.mp hreply
      by_cases hnext : sheet.GoesOn (skip + sheet.items.length)
      · rw [readFrom_next c url hbears skip hnext] at h ⊢
        obtain ⟨sheets, hsheets, rfl⟩ := ih h
        refine ⟨sheet :: sheets, ?_, by simp⟩
        exact .cons hbears hsheets
      · rw [readFrom_last c url hbears skip hnext] at h ⊢
        cases h
        exact ⟨[sheet], .cons hbears .nil, by simp⟩

/-! ## Replies that are all pages -/

theorem request_readFrom (h : List.Forall₂ Reply.Bears replies sheets) (skip : Nat) (before : List ContentType)
    {k : Nat} {request : Request} (hk : (c.readFrom url skip before replies).requests[k]? = some request) :
    request = c.requestAt url (skip + Sheet.count (sheets.take k)) := by
  induction h generalizing skip before k with
  | nil =>
    obtain ⟨rfl, rfl⟩ : k = 0 ∧ c.requestAt url skip = request := by
      simpa [readFrom, List.getElem?_singleton, requestAt] using hk
    rfl
  | @cons reply sheet rest sheets hbears _ ih =>
    by_cases hnext : sheet.GoesOn (skip + sheet.items.length)
    · rw [readFrom_next c url hbears skip hnext] at hk
      cases k with
      | zero => exact (Option.some.inj hk).symm
      | succ k =>
        rw [ih _ _ hk, List.take_succ_cons, Sheet.count_cons, Nat.add_assoc]
    · rw [readFrom_last c url hbears skip hnext] at hk
      obtain ⟨rfl, rfl⟩ : k = 0 ∧ c.requestAt url skip = request := by
        simpa [List.getElem?_singleton] using hk
      rfl

theorem issued_readFrom_iff (h : List.Forall₂ Reply.Bears replies sheets) (skip : Nat)
    (before : List ContentType) {k : Nat} {sheet : Sheet} (hsheet : sheets[k]? = some sheet)
    (hk : k < (c.readFrom url skip before replies).requests.length) :
    k + 1 < (c.readFrom url skip before replies).requests.length ↔
      sheet.GoesOn (skip + Sheet.count (sheets.take (k + 1))) := by
  induction h generalizing skip before k with
  | nil => cases hsheet
  | @cons reply first rest sheets hbears _ ih =>
    rw [List.take_succ_cons, Sheet.count_cons, ← Nat.add_assoc]
    by_cases hnext : first.GoesOn (skip + first.items.length)
    · rw [readFrom_next c url hbears skip hnext, List.length_cons] at hk ⊢
      cases k with
      | zero =>
        cases hsheet
        have hpos := c.length_requests_readFrom_pos url (skip + sheet.items.length)
          (before ++ sheet.contentTypes) rest
        simp only [List.take_zero, Sheet.count_nil, Nat.add_zero, hnext, iff_true]
        omega
      | succ k =>
        rw [← ih _ _ hsheet (Nat.lt_of_succ_lt_succ hk)]
        exact Nat.succ_lt_succ_iff
    · rw [readFrom_last c url hbears skip hnext, List.length_singleton] at hk ⊢
      obtain rfl : k = 0 := by omega
      cases hsheet
      simpa using hnext

theorem result_readFrom (h : List.Forall₂ Reply.Bears replies sheets) (skip : Nat) (before : List ContentType)
    (hends : (c.readFrom url skip before replies).requests.length ≤ replies.length) :
    (c.readFrom url skip before replies).result =
      .ok (before ++ (sheets.take (c.readFrom url skip before replies).requests.length).flatMap
        Sheet.contentTypes) := by
  induction h generalizing skip before with
  | nil => cases hends
  | @cons reply sheet rest sheets hbears _ ih =>
    by_cases hnext : sheet.GoesOn (skip + sheet.items.length)
    · rw [readFrom_next c url hbears skip hnext] at hends ⊢
      have := ih _ _ (Nat.le_of_succ_le_succ hends)
      simp only [this, List.length_cons, List.take_succ_cons, List.flatMap_cons, List.append_assoc]
    · rw [readFrom_last c url hbears skip hnext]
      simp

/-- A request is only made where the total of the page before it allows it, so a bound of the totals
is one of the requests. -/
theorem length_requests_readFrom_le (h : List.Forall₂ Reply.Bears replies sheets) {bound : Int}
    (hbound : ∀ sheet ∈ sheets, ∀ total n, sheet.total = some total → total.CountsAs n → n ≤ bound) :
    ((c.readFrom url 0 [] replies).requests.length : Int) ≤ max 1 bound := by
  by_cases hone : (c.readFrom url 0 [] replies).requests.length ≤ 1
  · omega
  obtain ⟨k, hk⟩ : ∃ k, (c.readFrom url 0 [] replies).requests.length = k + 2 :=
    ⟨_, (Nat.sub_add_cancel (by omega)).symm⟩
  -- The last request, and the sheet that called for it.
  obtain ⟨request, hrequest⟩ : ∃ request, (c.readFrom url 0 [] replies).requests[k + 1]? = some request :=
    ⟨_, List.getElem?_eq_getElem (by omega)⟩
  obtain ⟨sheet, hsheet⟩ : ∃ sheet, sheets[k]? = some sheet := by
    have := c.length_requests_readFrom url 0 [] replies
    have := h.length_eq
    exact ⟨_, List.getElem?_eq_getElem (by omega)⟩
  have hskip : request.skip = 0 + Sheet.count (sheets.take (k + 1)) := by
    rw [c.request_readFrom url h 0 [] hrequest]
    rfl
  have hlater : k + 1 ≤ request.skip := by
    have hget : ((c.readFrom url 0 [] replies).requests.map Request.skip)[k + 1]? = some request.skip := by
      rw [List.getElem?_map, hrequest, Option.map_some]
    obtain ⟨hlt, hget⟩ := List.getElem?_eq_some_iff.mp hget
    rw [← hget]
    exact le_getElem_of_pairwise_lt (c.pairwise_skip_readFrom url 0 [] replies).2 hlt
  obtain ⟨-, total, n, htotal, hcounts, hlt⟩ :=
    (c.issued_readFrom_iff url h 0 [] hsheet (by omega)).mp (by omega)
  have := hbound sheet (List.mem_of_getElem? hsheet) total n htotal hcounts
  omega

/-- A fetch of replies that are all pages, whatever their totals say. Each request goes to the same
address with the same limit and skips the items read before; another one is made if, and only if,
the last page has items and its total is a number greater than the items read. Once the fetch ends,
it gives what all the pages read hold, in order, and it ends within as many requests as any bound of
the totals. -/
theorem fetch_sheets (space environment : String) (h : List.Forall₂ Reply.Bears replies sheets) :
    let fetch := c.fetch space environment replies
    (∀ k request, fetch.requests[k]? = some request →
      request.url = c.url space environment ∧ request.limit = c.pageSize ∧
        request.skip = Sheet.count (sheets.take k)) ∧
    0 < fetch.requests.length ∧
    (∀ k sheet, sheets[k]? = some sheet → k < fetch.requests.length →
      (k + 1 < fetch.requests.length ↔ sheet.GoesOn (Sheet.count (sheets.take (k + 1))))) ∧
    (fetch.requests.length ≤ replies.length →
      fetch.result = .ok ((sheets.take fetch.requests.length).flatMap Sheet.contentTypes)) ∧
    (fetch.requests.map Request.skip).Pairwise (· < ·) ∧
    ∀ bound : Int,
      (∀ sheet ∈ sheets, ∀ total n, sheet.total = some total → total.CountsAs n → n ≤ bound) →
      (fetch.requests.length : Int) ≤ max 1 bound ∧
        (max 1 bound ≤ replies.length → ∃ cts, fetch.result = .ok cts) := by
  have hrequest := fun k request => @request_readFrom _ c (c.url space environment) _ _ h 0 [] k request
  have hissued := fun k sheet => @issued_readFrom_iff _ c (c.url space environment) _ _ h 0 [] k sheet
  have hresult := c.result_readFrom (c.url space environment) h 0 []
  simp only [Nat.zero_add, List.nil_append] at hrequest hissued hresult
  refine ⟨fun k request hk => ?_, c.length_requests_readFrom_pos _ 0 [] replies, hissued, hresult,
    (c.pairwise_skip_readFrom _ 0 [] replies).2, fun bound hbound => ?_⟩
  · rw [hrequest k request hk]
    exact ⟨rfl, rfl, rfl⟩
  · have hlength := c.length_requests_readFrom_le (c.url space environment) h hbound
    refine ⟨hlength, fun henough => ⟨_, hresult ?_⟩⟩
    omega

end Client

/-! ## A list of three on two pages -/

/-- A content type without fields, as an item of a page. -/
def Sheet.bareItem (id : String) : Data := .object [("sys", .object [("id", .text id)])]

def Sheet.bareType (id : String) : ContentType := ⟨⟨id, "ContentType"⟩, "", none, []⟩

def Sheet.firstOfThree : Sheet := ⟨["a", "b"].map bareItem, ["a", "b"].map bareType, some (.int 3)⟩

def Sheet.lastOfThree : Sheet := ⟨["c"].map bareItem, ["c"].map bareType, some (.int 3)⟩

def Reply.firstOfThree : Reply :=
  .answered 200 (some "OK")
    "\x7b\"items\":[\x7b\"sys\":\x7b\"id\":\"a\"\x7d\x7d,\x7b\"sys\":\x7b\"id\":\"b\"\x7d\x7d],\"total\":3\x7d"

def Reply.lastOfThree : Reply :=
  .answered 200 (some "OK") "\x7b\"items\":[\x7b\"sys\":\x7b\"id\":\"c\"\x7d\x7d],\"total\":3\x7d"

theorem Reply.bears_firstOfThree : Reply.firstOfThree.Bears Sheet.firstOfThree := by
  have hbody : Reply.bodyData?
      "\x7b\"items\":[\x7b\"sys\":\x7b\"id\":\"a\"\x7d\x7d,\x7b\"sys\":\x7b\"id\":\"b\"\x7d\x7d],\"total\":3\x7d" =
        some (.object [("items", .list (["a", "b"].map Sheet.bareItem)), ("total", .int 3)]) := by
    cbv
  exact .page rfl hbody rfl rfl rfl

theorem Reply.bears_lastOfThree : Reply.lastOfThree.Bears Sheet.lastOfThree := by
  have hbody : Reply.bodyData? "\x7b\"items\":[\x7b\"sys\":\x7b\"id\":\"c\"\x7d\x7d],\"total\":3\x7d" =
      some (.object [("items", .list (["c"].map Sheet.bareItem)), ("total", .int 3)]) := by
    cbv
  exact .page rfl hbody rfl rfl rfl

theorem Sheet.goesOn_firstOfThree : Sheet.firstOfThree.GoesOn (0 + Sheet.firstOfThree.items.length) :=
  ⟨List.cons_ne_nil _ _, _, 3, rfl, .int 3, by decide⟩

theorem Sheet.not_goesOn_lastOfThree :
    ¬ Sheet.lastOfThree.GoesOn (0 + Sheet.firstOfThree.items.length + Sheet.lastOfThree.items.length) := by
  rintro ⟨-, _, n, htotal, hcounts, hlt⟩
  cases htotal
  cases hcounts
  exact absurd hlt (by decide)

theorem Client.fetch_ofThree (c : Client) (space environment : String) (rest : List Reply) :
    c.fetch space environment (Reply.firstOfThree :: Reply.lastOfThree :: rest) =
      ⟨.ok (["a", "b", "c"].map Sheet.bareType),
        [c.requestAt (c.url space environment) 0, c.requestAt (c.url space environment) 2], rest⟩ := by
  unfold fetch
  rw [readFrom_next c _ Reply.bears_firstOfThree 0 Sheet.goesOn_firstOfThree,
    readFrom_last c _ Reply.bears_lastOfThree _ Sheet.not_goesOn_lastOfThree]
  rfl

theorem Client.fetch_sheets_three :
    List.Forall₂ Reply.Bears [Reply.firstOfThree, Reply.lastOfThree] [Sheet.firstOfThree, Sheet.lastOfThree] ∧
      (({} : Client).fetch "s" "e" [Reply.firstOfThree, Reply.lastOfThree]).requests.length = 2 ∧
      (({} : Client).fetch "s" "e" [Reply.firstOfThree, Reply.lastOfThree]).result =
        .ok (["a", "b", "c"].map Sheet.bareType) := by
  have hsheets : List.Forall₂ Reply.Bears [Reply.firstOfThree, Reply.lastOfThree]
      [Sheet.firstOfThree, Sheet.lastOfThree] :=
    .cons Reply.bears_firstOfThree (.cons Reply.bears_lastOfThree .nil)
  obtain ⟨-, hpos, hissued, hresult, -⟩ := fetch_sheets {} "s" "e" hsheets
  have hmore := (hissued 0 _ rfl hpos).mpr Sheet.goesOn_firstOfThree
  have hlast := mt (hissued 1 _ rfl hmore).mp Sheet.not_goesOn_lastOfThree
  have hlength : (({} : Client).fetch "s" "e" [Reply.firstOfThree, Reply.lastOfThree]).requests.length = 2 := by
    omega
  refine ⟨hsheets, hlength, ?_⟩
  rw [hresult (Nat.le_of_eq hlength), hlength]
  rfl

end Typings
