import ItemTable.Proofs.WrittenRecords
import ItemTable.Service.Changes
import Mathlib.Data.List.Forall2

/-!
# The pages of a description

A log is described page by page until an answer ends the listing: an error, an answer without a
description, or a page after which none follows. Every answer costs one request, and each request
but the first asks from where the page before it ended. A listing that does not fail gives the
shards of all its pages and the first view that is known (`describe_follows_pages`).
-/
namespace ItemTable.Service

open ItemTable.ChangeLog ItemTable.Json

/-- How a listing ends. -/
inductive Ending where
  | failed (f : Failure)
  | undescribed
  | last (page : SentDescription)

/-- The answers to a listing: pages after which another one follows, then the answer that ends it.
What is left is for other requests. When no reply is left the service gives no description. -/
inductive Listing : List Reply → List SentDescription → Ending → List Reply → Prop
  | exhausted : Listing [] [] .undescribed []
  | failed {reply : Reply} {rest : List Reply} {f : Failure}
      (h : reply.result SentDescription.read? = .error f) :
      Listing (reply :: rest) [] (.failed f) rest
  | undescribed {reply : Reply} {rest : List Reply}
      (h : reply.result SentDescription.read? = .ok none) :
      Listing (reply :: rest) [] .undescribed rest
  | last {reply : Reply} {rest : List Reply} {page : SentDescription}
      (h : reply.result SentDescription.read? = .ok (some page)) (hlast : page.lastShard = none) :
      Listing (reply :: rest) [] (.last page) rest
  | page {reply : Reply} {replies rest : List Reply} {page : SentDescription}
      {pages : List SentDescription}
      {ending : Ending} {shard : String} (h : reply.result SentDescription.read? = .ok (some page))
      (hlast : page.lastShard = some shard) (hnext : Listing replies pages ending rest) :
      Listing (reply :: replies) (page :: pages) ending rest

/-- Whatever the service answers, the answers are a listing. -/
theorem exists_listing (replies : List Reply) :
    ∃ pages ending rest, Listing replies pages ending rest := by
  induction replies with
  | nil => exact ⟨_, _, _, .exhausted⟩
  | cons reply replies ih =>
    cases h : reply.result SentDescription.read? with
    | error f => exact ⟨_, _, _, .failed h⟩
    | ok answer =>
      cases answer with
      | none => exact ⟨_, _, _, .undescribed h⟩
      | some page =>
        cases hlast : page.lastShard with
        | none => exact ⟨_, _, _, .last h hlast⟩
        | some shard =>
          obtain ⟨pages, ending, rest, hnext⟩ := ih
          exact ⟨_, _, _, .page h hlast hnext⟩

/-- What the loop makes of an ending, given what the pages before it have said. -/
def Ending.result (d : Description) : Ending → Except Failure Description
  | failed f => .error f
  | undescribed => .ok d
  | last page => .ok (addPage d page)

/-- The loop follows the listing. -/
theorem describeFrom_listing {replies rest : List Reply} {pages : List SentDescription}
    {ending : Ending} (h : Listing replies pages ending rest) (log : String) (start : Option String)
    (d : Description) (sent : List Sent) :
    describeFrom log start d sent replies =
      (ending.result (pages.foldl addPage d),
        { replies := rest
          sent := sent ++ (start :: pages.map (·.lastShard)).map (describeRequest log) }) := by
  induction h generalizing start d sent with
  | exhausted => rfl
  | failed h | undescribed h =>
    rw [describeFrom, h]
    rfl
  | last h hlast =>
    rw [describeFrom, h]
    simp only [hlast]
    rfl
  | page h hlast hnext ih =>
    rw [describeFrom, h]
    simp only [hlast]
    rw [ih, List.append_assoc]
    simp only [List.foldl_cons, List.map_cons, List.singleton_append, hlast]

/-- What is said on some pages: the shards that have an id, with their parents, in the order of the
pages, and the first view that is known. -/
structure Describes (pages : List SentDescription) (d : Description) : Prop where
  shards :
    d.shards = (pages.flatMap (·.shards)).filterMap fun s => s.id.map fun id => ⟨id, s.parent⟩
  view : ∀ v, d.view = some v ↔ ∃ before page after, pages = before ++ page :: after ∧
    page.view = some v.name ∧ ∀ p ∈ before, ∀ w : ViewType, p.view ≠ some w.name

theorem viewType_ofName?_eq_some_iff {name : String} {v : ViewType} :
    ViewType.ofName? name = some v ↔ name = v.name := by
  constructor
  · intro h
    simp only [ViewType.ofName?, ViewType.choices, List.map_cons, List.map_nil, lookEntry] at h
    repeat
      split at h
      · next heq =>
        cases h
        exact heq
    cases h
  · rintro rfl
    exact v.lookEntry_name

/-- The view that a page says, if it is known. -/
theorem SentDescription.knownView_eq_some_iff {page : SentDescription} {v : ViewType} :
    page.view.bind ViewType.ofName? = some v ↔ page.view = some v.name := by
  simp only [Option.bind_eq_some_iff, viewType_ofName?_eq_some_iff, exists_eq_right]

/-- One page after another is added to what has been said before. -/
theorem foldl_addPage (pages : List SentDescription) (d : Description) :
    pages.foldl addPage d =
      { shards := d.shards ++ (pages.flatMap (·.shards)).filterMap SentShard.toShard?
        view := d.view.or (pages.findSome? fun p => p.view.bind ViewType.ofName?) } := by
  induction pages generalizing d with
  | nil => simp
  | cons page pages ih =>
    rw [List.foldl_cons, ih, addPage, List.flatMap_cons, List.filterMap_append, List.append_assoc,
      List.findSome?_cons, Option.or_assoc]
    cases page.view.bind ViewType.ofName? <;> simp

theorem describes_foldl_addPage (pages : List SentDescription) :
    Describes pages (pages.foldl addPage ⟨[], none⟩) := by
  rw [foldl_addPage]
  refine ⟨rfl, fun v => ?_⟩
  have hunknown (p : SentDescription) :
      p.view.bind ViewType.ofName? = none ↔ ∀ w : ViewType, p.view ≠ some w.name := by
    simp only [Option.eq_none_iff_forall_ne_some, ne_eq, SentDescription.knownView_eq_some_iff]
  simp only [Option.none_or, List.findSome?_eq_some_iff, SentDescription.knownView_eq_some_iff,
    hunknown]

/-- What the listing gives: the failure with which it ends, or the description of all its pages. -/
def Ending.Gives (pages : List SentDescription) (result : Except Failure Description) :
    Ending → Prop
  | failed f => result = .error f
  | undescribed => ∃ d, result = .ok d ∧ Describes pages d
  | last page => ∃ d, result = .ok d ∧ Describes (pages ++ [page]) d

theorem Ending.gives_result (ending : Ending) (pages : List SentDescription) :
    ending.Gives pages (ending.result (pages.foldl addPage ⟨[], none⟩)) := by
  cases ending with
  | failed f => rfl
  | undescribed => exact ⟨_, rfl, describes_foldl_addPage pages⟩
  | last page =>
    have hconcat : (pages ++ [page]).foldl addPage ⟨[], none⟩ =
        addPage (pages.foldl addPage ⟨[], none⟩) page := by
      rw [List.foldl_append]
      rfl
    exact ⟨_, rfl, hconcat ▸ describes_foldl_addPage (pages ++ [page])⟩

/-- A request for the description of a log from a shard on. -/
structure AsksFrom (log : String) (start : Option String) (request : Sent) : Prop where
  target : request.target = "DynamoDBStreams_20120810.DescribeStream"
  log : request.body.member? "StreamArn" = some (.text log)
  start : request.body.member? "ExclusiveStartShardId" = start.map .text

theorem asksFrom_describeRequest (log : String) (start : Option String) :
    AsksFrom log start (describeRequest log start) := by
  cases start with
  | none => exact ⟨rfl, rfl, rfl⟩
  | some shard => exact ⟨rfl, rfl, rfl⟩

/-- Every sequence of answers is a listing. One request is sent for each of its answers: the first
one asks from the start of the log, each later one from the last shard of the page before it. What
is given is the failure with which the listing ends, or all that its pages say. -/
theorem describe_follows_pages (log : String) (x : Exchange) :
    (∃ pages ending rest, Listing x.replies pages ending rest) ∧
      ∀ pages ending rest, Listing x.replies pages ending rest →
        ending.Gives pages (describe log x).1 ∧ (describe log x).2.replies = rest ∧
          ∃ requests, (describe log x).2.sent = x.sent ++ requests ∧
            List.Forall₂ (AsksFrom log) (none :: pages.map (·.lastShard)) requests := by
  refine ⟨exists_listing x.replies, fun pages ending rest h => ?_⟩
  have hrun := describeFrom_listing h log none ⟨[], none⟩ x.sent
  rw [describe, hrun]
  refine ⟨ending.gives_result pages, rfl, _, rfl, ?_⟩
  rw [List.forall₂_map_right_iff]
  exact List.forall₂_same.2 fun start _ => asksFrom_describeRequest log start

/-- A page of a description as it comes. -/
def pageReply (members : List (String × Document)) : Reply :=
  .answer 200 [] (.ofMembers [("StreamDescription", .ofMembers members)])

/-- Three pages: a view that is not known and a shard without an id, then a known view and a child,
then another view and nothing else. -/
theorem threePages_described :
    let first :=
      pageReply [("Shards", .ofList [.ofMembers [("ShardId", .text "a")], .ofMembers []]),
      ("StreamViewType", .text "EVERYTHING"), ("LastEvaluatedShardId", .text "a")]
    let second := pageReply [("Shards",
      .ofList [.ofMembers [("ShardId", .text "b"), ("ParentShardId", .text "a")]]),
      ("StreamViewType", .text "NEW_IMAGE"), ("LastEvaluatedShardId", .text "b")]
    let third := pageReply [("StreamViewType", .text "KEYS_ONLY")]
    (describe "log" { replies := [first, second, third, .lost] }).1 =
        .ok ⟨[⟨"a", none⟩, ⟨"b", some "a"⟩], some .newImage⟩ ∧
      (describe "log" { replies := [first, second, .lost] }).1 = .error .lost ∧
      List.Forall₂ (AsksFrom "log") [none, some "a", some "b"]
        (describe "log" { replies := [first, second, third, .lost] }).2.sent := by
  intro first second third
  have hlisting : Listing [first, second, third, .lost]
      [⟨[⟨some "a", none⟩, ⟨none, none⟩], some "EVERYTHING", some "a"⟩,
        ⟨[⟨some "b", some "a"⟩], some "NEW_IMAGE", some "b"⟩]
      (.last ⟨[], some "KEYS_ONLY", none⟩) [.lost] :=
    .page rfl rfl (.page rfl rfl (.last rfl rfl))
  have hfailing : Listing [first, second, .lost]
      [⟨[⟨some "a", none⟩, ⟨none, none⟩], some "EVERYTHING", some "a"⟩,
        ⟨[⟨some "b", some "a"⟩], some "NEW_IMAGE", some "b"⟩] (.failed .lost) [] :=
    .page rfl rfl (.page rfl rfl (.failed rfl))
  obtain ⟨⟨d, hd, hshards, hview⟩, -, requests, hsent, hasks⟩ :=
    (describe_follows_pages "log" { replies := [first, second, third, .lost] }).2 _ _ _ hlisting
  refine ⟨?_, ?_, hsent ▸ hasks⟩
  · obtain ⟨shards, view⟩ := d
    have hknown : view = some .newImage := by
      refine (hview .newImage).2 ⟨[_], _, [_], rfl, rfl, fun p hp w => ?_⟩
      rw [List.mem_singleton.1 hp]
      cases w <;> decide
    rw [hd, hknown]
    cases hshards
    rfl
  · exact ((describe_follows_pages "log" { replies := [first, second, .lost] }).2 _ _ _ hfailing).1

end ItemTable.Service
