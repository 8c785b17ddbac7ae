import Typings.Generation
import Typings.Proofs.ContentApi.Pagination

/-!
# Replies that are no pages

A fetch fails if, and only if, it comes to a reply that is no page. What it fails with depends on
that reply alone: not on the pages before it, of which nothing is left, nor on what the server would
have sent later, which is never asked for.
-/

namespace Typings

/-- A body that no page can be read from, and the fault that is found first: with the body as data,
as an object, with its list, with an item of it. -/
inductive BadBody [LoneSurrogates] (body : String) : PageFault → Prop
  | notData (unread : Reply.bodyData? body = none) : BadBody body .notData
  | notObject {d : Data} (read : Reply.bodyData? body = some d) (other : ∀ members, d ≠ .object members) :
      BadBody body .notObject
  | noItems {members : Data.Members} (read : Reply.bodyData? body = some (.object members))
      (noList : ∀ items, members.get? "items" ≠ some (.list items)) : BadBody body .noItems
  | badItem {members : Data.Members} {before after : List Data} {item : Data} {issues : List Issue}
      (read : Reply.bodyData? body = some (.object members))
      (list : members.get? "items" = some (.list (before ++ item :: after)))
      (valid : ∀ d ∈ before, ∃ ct, ContentType.ofData d = .accepted ct)
      (invalid : ContentType.ofData item = .rejected issues) : BadBody body (.badItem issues)

/-- A reply that is no page, and its fault: the request failed, or the status reports an error,
whatever the body is, or the body is bad. -/
inductive Reply.Bad [LoneSurrogates] : Reply → PageFault → Prop
  | timedOut : Bad .timedOut .timedOut
  | failed (text : String) : Bad (.failed text) (.failed text)
  | crashed (crash : Crash) : Bad (.crashed crash) (.crashed crash)
  | refused {status : Int} (reason : Option String) (body : String) (error : 400 ≤ status ∧ status < 600) :
      Bad (.answered status reason body) (.refused status (Reply.complaint reason body))
  | body {status : Int} {reason : Option String} {body : String} {f : PageFault}
      (success : ¬ (400 ≤ status ∧ status < 600)) (bad : BadBody body f) : Bad (.answered status reason body) f

/-! ## Reading a bad reply -/

theorem Reply.isSuccess_iff (status : Int) : isSuccess status = true ↔ ¬ (400 ≤ status ∧ status < 600) := by
  rw [isSuccess, Bool.not_eq_true', ← Bool.not_eq_true, Bool.and_eq_true, decide_eq_true_iff, decide_eq_true_iff]

namespace Page

theorem readItems_eq_error_iff {items : List Data} {f : PageFault} :
    readItems items = .error f ↔
      ∃ before item after issues, items = before ++ item :: after ∧
        (∀ d ∈ before, ∃ ct, ContentType.ofData d = .accepted ct) ∧
        ContentType.ofData item = .rejected issues ∧ f = .badItem issues := by
  constructor
  · intro h
    induction items with
    | nil => cases h
    | cons d rest ih =>
      rw [readItems] at h
      cases hd : ContentType.ofData d with
      | rejected issues =>
        rw [hd] at h
        cases h
        exact ⟨[], d, rest, issues, rfl, List.forall_mem_nil _, hd, rfl⟩
      | accepted ct =>
        rw [hd] at h
        cases hrest : readItems rest with
        | ok cts =>
          rw [hrest] at h
          cases h
        | error g =>
          rw [hrest] at h
          cases h
          obtain ⟨before, item, after, issues, rfl, hvalid, hinvalid, rfl⟩ := ih hrest
          exact ⟨d :: before, item, after, issues, rfl, List.forall_mem_cons.mpr ⟨⟨ct, hd⟩, hvalid⟩, hinvalid, rfl⟩
  · rintro ⟨before, item, after, issues, rfl, hvalid, hinvalid, rfl⟩
    induction before with
    | nil => rw [List.nil_append, readItems, hinvalid]
    | cons d before ih =>
      obtain ⟨⟨ct, hd⟩, hvalid⟩ := List.forall_mem_cons.mp hvalid
      rw [List.cons_append, readItems, hd]
      simp only [ih hvalid]
      rfl

theorem ofObject_eq_error_iff {members : Data.Members} {f : PageFault} :
    ofObject (.object members) = .error f ↔
      (∃ items, members.get? "items" = some (.list items) ∧ readItems items = .error f) ∨
        (∀ items, members.get? "items" ≠ some (.list items)) ∧ f = .noItems := by
  unfold ofObject
  simp only [Data.get?]
  split
  · rename_i items hitems
    simp only [hitems, Option.some.injEq, Data.list.injEq, exists_eq_left']
    cases readItems items <;> simp [bind, Except.bind, pure, Except.pure]
  · rename_i hitems
    constructor
    · rintro ⟨⟩
      exact Or.inr ⟨hitems, rfl⟩
    · rintro (⟨items, hfound, -⟩ | ⟨-, rfl⟩)
      · exact absurd hfound (hitems items)
      · rfl

theorem ofBody_eq_error_iff [LoneSurrogates] {body : String} {f : PageFault} :
    ofBody body = .error f ↔ BadBody body f := by
  constructor
  · intro h
    unfold ofBody at h
    split at h
    · rename_i unread
      cases h
      exact .notData unread
    · rename_i members read
      rcases ofObject_eq_error_iff.mp h with ⟨items, list, hitems⟩ | ⟨noList, rfl⟩
      · obtain ⟨before, item, after, issues, rfl, valid, invalid, rfl⟩ := readItems_eq_error_iff.mp hitems
        exact .badItem read list valid invalid
      · exact .noItems read noList
    · rename_i d other read
      cases h
      exact .notObject read other
  · intro hbad
    cases hbad with
    | notData unread => rw [ofBody, unread]
    | @notObject d read other =>
      rw [ofBody, read]
      cases d with
      | object members => exact absurd rfl (other members)
      | _ => rfl
    | noItems read noList =>
      rw [ofBody, read]
      exact ofObject_eq_error_iff.mpr (Or.inr ⟨noList, rfl⟩)
    | badItem read list valid invalid =>
      rw [ofBody, read]
      exact ofObject_eq_error_iff.mpr
        (Or.inl ⟨_, list, readItems_eq_error_iff.mpr ⟨_, _, _, _, rfl, valid, invalid, rfl⟩⟩)

theorem ofReply_eq_error_iff [LoneSurrogates] {reply : Reply} {f : PageFault} :
    ofReply reply = .error f ↔ reply.Bad f := by
  constructor
  · intro h
    cases reply with
    | timedOut =>
      cases h
      exact .timedOut
    | failed text =>
      cases h
      exact .failed text
    | crashed crash =>
      cases h
      exact .crashed crash
    | answered status reason body =>
      rw [ofReply] at h
      split at h
      · rename_i success
        exact .body ((Reply.isSuccess_iff status).mp success) (ofBody_eq_error_iff.mp h)
      · rename_i error
        cases h
        exact .refused reason body (not_not.mp (mt (Reply.isSuccess_iff status).mpr error))
  · intro hbad
    cases hbad with
    | timedOut | failed | crashed => rfl
    | refused reason body error => rw [ofReply, if_neg (mt (Reply.isSuccess_iff _).mp (not_not.mpr error))]
    | body success bad =>
      rw [ofReply, if_pos ((Reply.isSuccess_iff _).mpr success)]
      exact ofBody_eq_error_iff.mpr bad

end Page

namespace Reply

variable [LoneSurrogates] {reply : Reply} {sheet : Sheet} {f g : PageFault}

theorem Bad.unique (hf : reply.Bad f) (hg : reply.Bad g) : f = g := by
  rw [← Page.ofReply_eq_error_iff] at hf hg
  exact Except.error.inj (hf.symm.trans hg)

theorem Bears.not_bad (h : reply.Bears sheet) : ¬ reply.Bad f := by
  intro hbad
  cases h.ofReply_eq.symm.trans (Page.ofReply_eq_error_iff.mpr hbad)

theorem Bad.ofFetchFault_eq (h : reply.Bad f) (hcrash : ∀ crash, reply ≠ .crashed crash) (url : String) :
    Generation.ofFetchFault ⟨url, f⟩ = .fetch ⟨url, f⟩ := by
  cases h with
  | crashed crash => exact absurd rfl (hcrash crash)
  | body _ bad => cases bad <;> rfl
  | _ => rfl

/-- The reply to the next request, of those that are left: where none is, the request fails. -/
def next (left : List Reply) : Reply := left.headD (.failed noResponse)

end Reply

/-- Replies that are pages, each of which calls for more: a fetch that comes to them with `read` items
read goes past them, and has read `read'` items then. -/
inductive Passes [LoneSurrogates] : Nat → List Reply → Nat → Prop
  | nil (read : Nat) : Passes read [] read
  | cons {read read' : Nat} {reply : Reply} {sheet : Sheet} {replies : List Reply} (bears : reply.Bears sheet)
      (goesOn : sheet.GoesOn (read + sheet.items.length))
      (further : Passes (read + sheet.items.length) replies read') : Passes read (reply :: replies) read'

theorem Passes.not_bad [LoneSurrogates] {read read' : Nat} {replies : List Reply} (h : Passes read replies read') :
    ∀ reply ∈ replies, ∀ f, ¬ reply.Bad f := by
  induction h with
  | nil => exact nofun
  | cons bears _ _ ih => exact List.forall_mem_cons.mpr ⟨fun _ => bears.not_bad, ih⟩

namespace Client

section

variable [LoneSurrogates] (c : Client) (url : String)

/-! ## One step -/

theorem readFrom_of_bad {left : List Reply} {f : PageFault} (h : (Reply.next left).Bad f) (skip : Nat)
    (before : List ContentType) :
    c.readFrom url skip before left = ⟨.error ⟨url, f⟩, [c.requestAt url skip], left.tail⟩ := by
  cases left with
  | nil =>
    cases h
    rfl
  | cons reply rest =>
    have hfault : Page.ofReply reply = .error f := Page.ofReply_eq_error_iff.mpr h
    rw [readFrom, hfault]
    rfl

/-! ## Any replies -/

theorem readFrom_of_passes {skip skip' : Nat} {passed : List Reply} (h : Passes skip passed skip')
    (before : List ContentType) (left : List Reply) :
    ∃ requests cts, requests.length = passed.length ∧
      c.readFrom url skip before (passed ++ left) =
        let further := c.readFrom url skip' (before ++ cts) left
        ⟨further.result, requests ++ further.requests, further.left⟩ := by
  induction h generalizing before with
  | nil => exact ⟨[], [], rfl, by rw [List.append_nil]; rfl⟩
  | @cons skip _ reply sheet _ bears goesOn _ ih =>
    obtain ⟨requests, cts, hlength, hread⟩ := ih (before ++ sheet.contentTypes)
    refine ⟨c.requestAt url skip :: requests, sheet.contentTypes ++ cts, by simp [hlength], ?_⟩
    rw [List.cons_append, readFrom_next c url bears skip goesOn, hread, List.append_assoc]
    rfl

theorem readFrom_of_passes_of_bad {skip skip' : Nat} {passed left : List Reply} {f : PageFault}
    (hpassed : Passes skip passed skip') (hbad : (Reply.next left).Bad f) (before : List ContentType) :
    (c.readFrom url skip before (passed ++ left)).result = .error ⟨url, f⟩ ∧
      (c.readFrom url skip before (passed ++ left)).requests.length = passed.length + 1 ∧
      (c.readFrom url skip before (passed ++ left)).left = left.tail := by
  obtain ⟨requests, cts, hlength, hread⟩ := c.readFrom_of_passes url hpassed before left
  rw [hread, c.readFrom_of_bad url hbad]
  exact ⟨rfl, by simp [hlength], rfl⟩

theorem exists_bad_of_readFrom_eq_error {skip : Nat} {before : List ContentType} {replies : List Reply}
    {fault : FetchFault} (h : (c.readFrom url skip before replies).result = .error fault) :
    ∃ passed left skip' f, replies = passed ++ left ∧ Passes skip passed skip' ∧ (Reply.next left).Bad f := by
  induction replies generalizing skip before with
  | nil => exact ⟨[], [], skip, _, rfl, .nil skip, .failed _⟩
  | cons reply rest ih =>
    cases hreply : Page.ofReply reply with
    | error f => exact ⟨[], reply :: rest, skip, f, rfl, .nil skip, Page.ofReply_eq_error_iff.mp hreply⟩
    | ok page =>
      obtain ⟨sheet, bears, -⟩ := Page.ofReply_eq_ok_iff.mp hreply
      by_cases goesOn : sheet.GoesOn (skip + sheet.items.length)
      · rw [readFrom_next c url bears skip goesOn] at h
        obtain ⟨passed, left, skip', f, rfl, further, hbad⟩ := ih h
        exact ⟨reply :: passed, left, skip', f, rfl, .cons bears goesOn further, hbad⟩
      · rw [readFrom_last c url bears skip goesOn] at h
        cases h

/-- A fetch fails if, and only if, behind pages that each call for more it comes to a bad reply. That
reply is the first bad one, and its fault is what the fetch fails with, whatever came before it; no
further request is made, and the replies behind it are left as they are. A status that reports an
error is named as such. Only a crash of the request is passed on as a crash. -/
theorem fetch_bad (space environment : String) (replies : List Reply) :
    ((∃ fault, (c.fetch space environment replies).result = .error fault) ↔
      ∃ passed left read f, replies = passed ++ left ∧ Passes 0 passed read ∧ (Reply.next left).Bad f) ∧
    ∀ passed left read f, replies = passed ++ left → Passes 0 passed read → (Reply.next left).Bad f →
      let fetch := c.fetch space environment replies
      let fault : FetchFault := ⟨c.url space environment, f⟩
      fetch.result = .error fault ∧ fetch.requests.length = passed.length + 1 ∧ fetch.left = left.tail ∧
      (∀ reply ∈ passed, ∀ g, ¬ reply.Bad g) ∧ (∀ g, (Reply.next left).Bad g → g = f) ∧
      (∀ others later read', Passes 0 others read' → Reply.next later = Reply.next left →
        (c.fetch space environment (others ++ later)).result = fetch.result) ∧
      (∀ status reason body, Reply.next left = .answered status reason body → 400 ≤ status ∧ status < 600 →
        fault.message = "GET " ++ c.url space environment ++ " returned HTTP " ++ toString status ++ ": " ++
          Reply.complaint reason body) ∧
      (∀ crash, Reply.next left = .crashed crash → Generation.ofFetchFault fault = .crashed crash) ∧
      ((∀ crash, Reply.next left ≠ .crashed crash) → Generation.ofFetchFault fault = .fetch fault) := by
  refine ⟨⟨?_, ?_⟩, ?_⟩
  · rintro ⟨fault, hfault⟩
    exact c.exists_bad_of_readFrom_eq_error (c.url space environment) hfault
  · rintro ⟨passed, left, read, f, rfl, hpassed, hbad⟩
    exact ⟨_, (c.readFrom_of_passes_of_bad _ hpassed hbad []).1⟩
  · rintro passed left read f rfl hpassed hbad
    obtain ⟨hresult, hrequests, hleft⟩ :=
      c.readFrom_of_passes_of_bad (c.url space environment) hpassed hbad []
    refine ⟨hresult, hrequests, hleft, hpassed.not_bad, fun g hg => hg.unique hbad, ?_, ?_, ?_, ?_⟩
    · intro others later read' hothers hlater
      rw [← hlater] at hbad
      exact (c.readFrom_of_passes_of_bad _ hothers hbad []).1.trans hresult.symm
    · intro status reason body hreply herror
      rw [hreply] at hbad
      cases hbad.unique (.refused reason body herror)
      rfl
    · intro crash hreply
      rw [hreply] at hbad
      cases hbad
      rfl
    · exact fun hreply => hbad.ofFetchFault_eq hreply _

end

theorem fetch_bad_second :
    (({} : Client).fetch "s" "e" [Reply.firstOfThree, .answered 404 (some "Not Found") "", .timedOut]).result =
      .error ⟨"https://api.contentful.com/spaces/s/environments/e/content_types", .refused 404 "Not Found"⟩ := by
  have hbody : Reply.complaint (some "Not Found") "" = "Not Found" := by
    cbv
  have hbad : (Reply.answered 404 (some "Not Found") "").Bad (.refused 404 "Not Found") := by
    have h : (Reply.answered 404 (some "Not Found") "").Bad _ := .refused (some "Not Found") "" (by decide)
    rwa [hbody] at h
  have hpassed : Passes 0 [Reply.firstOfThree] (0 + Sheet.firstOfThree.items.length) :=
    .cons Reply.bears_firstOfThree Sheet.goesOn_firstOfThree (.nil _)
  obtain ⟨hresult, -⟩ := (fetch_bad {} "s" "e"
    [Reply.firstOfThree, .answered 404 (some "Not Found") "", .timedOut]).2
      [Reply.firstOfThree] [.answered 404 (some "Not Found") "", .timedOut] _ _ rfl hpassed hbad
  exact hresult

end Client

end Typings
