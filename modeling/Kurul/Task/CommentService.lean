import Kurul.Notification.NotificationService
import Kurul.Task.Mentions

/-! Comments of a task. The members a body mentions are looked up by the ids it spells, in the
transaction that stores the comment; they are signalled and mailed after it. -/
namespace Kurul

open Store Prog

structure AuthorDto where
  id : Id
  name : String
  avatarUrl : Option String
  deleted : Bool
  deriving DecidableEq

structure CommentDto where
  id : Id
  taskId : Id
  userId : Id
  body : String
  createdAt : DateTime
  author : AuthorDto
  deriving DecidableEq

structure CreateCommentDto where
  body : String

/-- The date of the deletion stays here. -/
def toAuthorDto (row : User) : AuthorDto where
  id := row.id
  name := row.name
  avatarUrl := row.avatarUrl
  deleted := row.deletedAt.isSome

namespace CommentService

/-- The comment with its author. -/
def toDto (rows : List Row) (row : Comment) : CommentDto where
  id := row.id
  taskId := row.taskId
  userId := row.userId
  body := row.body
  createdAt := row.createdAt
  author := (((table rows : List User).find? (·.id = row.userId)).map toAuthorDto).getD ⟨row.userId, "", none, false⟩

def findTask (workspaceId taskId : Id) : Service Task :=
  found (.findFirst (scopedTask workspaceId taskId)) (.notFound "Task not found")

/-- `where: { workspaceId, userId: { in: mentionIds } }`; not asked without any. -/
def mentionedMembers (workspaceId : Id) (mentionIds : List Id) : Service (List Id) :=
  if mentionIds = [] then Prog.pure []
  else query (.read fun rows => ((table rows : List WorkspaceMember).filter fun member =>
    member.workspaceId = workspaceId && mentionIds.contains member.userId).map WorkspaceMember.userId)

/-- The comment, its audit row and the rows of the mentioned members. -/
def store (workspaceId taskId userId : Id) (task : Task) (dto : CreateCommentDto) (mentionIds : List Id) :
    Service (CommentDto × List Id) := do
  let given ← Service.fresh
  let created ← query (including
    (.create { id := given.id, taskId, userId, body := dto.body, createdAt := given.now : Comment }) toDto)
  let memberIds ← mentionedMembers workspaceId mentionIds
  let activity ← ActivityService.record {
    workspaceId
    taskId := some taskId
    userId
    type := .CommentCreated
    payload := [("commentId", .scalar (.text created.id)), ("title", .scalar (.text task.title)),
      ("mentionedUserIds", .texts memberIds)] }
  if memberIds = [] then return (created, [])
  else do
    let _ ← NotificationService.createMentionBatch {
      workspaceId
      actorId := userId
      taskId
      activityId := some activity.id
      userIds := memberIds
      payload := [("commentId", .scalar (.text created.id)), ("taskId", .scalar (.text taskId)),
        ("title", .scalar (.text task.title)), ("actorId", .scalar (.text userId))] }
    return (created, memberIds)

/-- The signals and the mails about the mentions. -/
def notify (mailEnabled : Bool) (workspaceId taskId userId : Id) (mentionRecipients : List Id) : Service Unit :=
  if mentionRecipients = [] then Prog.pure ()
  else do
    NotificationService.emitUnreadChanged workspaceId mentionRecipients
    NotificationMailer.sendForCreated mailEnabled (mentionRecipients.map fun recipientId =>
      { workspaceId, userId := recipientId, actorId := some userId, type := .Mention, taskId })

def create (mailEnabled : Bool) (workspaceId taskId userId : Id) (dto : CreateCommentDto) : Service CommentDto := do
  let task ← findTask workspaceId taskId
  let mentionIds := (parseMentions dto.body).filter fun id => id ≠ userId
  let (comment, mentionRecipients) ← transaction (store workspaceId taskId userId task dto mentionIds)
  notify mailEnabled workspaceId taskId userId mentionRecipients
  Service.emit (.emitToBoard task.boardId
    (.COMMENT_ADDED workspaceId task.boardId userId taskId comment.id))
  return comment

def scopedComment (workspaceId commentId : Id) : Where Row Comment := fun rows comment =>
  comment.id = commentId && taskInWorkspace workspaceId rows comment.taskId

/-- By the author, or by somebody who may delete any comment. -/
def remove (workspaceId commentId actorId : Id) (actorRole : MemberRole) : Service Unit :=
  transaction do
    let comment ← found (.findFirst (scopedComment workspaceId commentId)) (.notFound "Comment not found")
    require (comment.userId = actorId ∨ actorRole = .OWNER ∨ actorRole = .ADMIN)
      (.forbidden "Only the author or an admin can delete this comment")
    let count ← query (.deleteMany (scopedComment workspaceId commentId))
    require (count ≠ 0) (.notFound "Comment not found")

end CommentService
end Kurul
