import Kurul.Encoding.Html
import Kurul.Sequence.Splitting
import Kurul.Sequence.Trimming
import Kurul.Service

/-! The e-mails: their copy in two languages, and how names that users chose get into subject, plain text and HTML. -/
namespace Kurul.MailTemplates

open Encoding.Html (Text)

def lit (text : String) : Text := text.toList

def PRODUCT_NAME : Text := lit "Kurul"

def replaceAll (c : Char) (replacement value : Text) : Text :=
  value.flatMap fun d => if d = c then replacement else [d]

def escapeHtml (value : Text) : Text :=
  replaceAll '\'' (lit "&#39;") (replaceAll '"' (lit "&quot;") (replaceAll '>' (lit "&gt;")
    (replaceAll '<' (lit "&lt;") (replaceAll '&' (lit "&amp;") value))))

/-- One space for each run of what `\s` matches, which is what `trim` takes away. -/
def collapse (inRun : Bool) : Text → Text
  | [] => []
  | c :: rest =>
      if isTrimmed c then (if inRun then collapse true rest else ' ' :: collapse true rest) else c :: collapse false rest

def singleLine (value : Text) : Text := Sequence.trimmed isTrimmed (collapse false value)

def htmlDocument (heading bodyHtml : Text) : Text :=
  lit "<div style=\"font-family:system-ui,-apple-system,Segoe UI,sans-serif;line-height:1.5;color:#111\">" ++
  (lit "<h1 style=\"font-size:20px;margin:0 0 16px\">" ++ escapeHtml heading ++ lit "</h1>") ++
  bodyHtml ++
  (lit "<p style=\"font-size:12px;color:#666;margin-top:24px\">" ++ escapeHtml PRODUCT_NAME ++ lit "</p>") ++
  lit "</div>"

def actionHtml (label url linkFallback : Text) : Text :=
  let safeUrl := escapeHtml url
  lit "<p><a href=\"" ++ safeUrl ++ lit "\" style=\"display:inline-block;padding:10px 16px;" ++
    lit "background:#111;color:#fff;border-radius:6px;text-decoration:none\">" ++ escapeHtml label ++ lit "</a></p>" ++
    (lit "<p style=\"font-size:12px;color:#666\">" ++ escapeHtml linkFallback ++ lit "<br>" ++ safeUrl ++ lit "</p>")

structure VerificationCopy where
  subject : Text
  heading : Text
  greeting : Text → Text
  greetingAnonymous : Text
  lead : Text
  action : Text
  closing : Text

structure PasswordResetCopy extends VerificationCopy where
  expiry : ℚ → Text

structure InvitationCopy where
  subject : Text → Text
  heading : Text → Text
  lead : Text → Text → Text
  leadAnonymous : Text → Text
  action : Text
  note : Text
  closing : Text

structure ActorCopy where
  subject : Text → Text
  heading : Text
  lead : Text → Text → Text → Text
  leadAnonymous : Text → Text → Text
  action : Text

structure DueSoonCopy where
  subject : Text → Text
  heading : Text
  lead : Text → Text → Text → Text
  action : Text

structure MailCopy where
  linkFallback : Text
  verification : VerificationCopy
  passwordReset : PasswordResetCopy
  invitation : InvitationCopy
  notificationFooter : Text
  assignment : ActorCopy
  mention : ActorCopy
  dueSoon : DueSoonCopy

/-- How numbers and days are written. -/
structure Formats where
  numberText : ℚ → Text
  formatDueDate : DateTime → Locale → Text

def MAIL_COPY (formats : Formats) : Locale → MailCopy
  | .en => {
      linkFallback := lit "If the button does not work, paste this link into your browser:"
      verification := {
        subject := lit "Confirm your email address for " ++ PRODUCT_NAME
        heading := lit "Confirm your email address"
        greeting name := lit "Hi " ++ name ++ lit ","
        greetingAnonymous := lit "Hi,"
        lead := lit "Confirm this address to finish setting up your " ++ PRODUCT_NAME ++
          lit " account. You need a confirmed address before you can accept a workspace invitation."
        action := lit "Confirm email address"
        closing := lit "If you did not create this account, you can ignore this email." }
      passwordReset := {
        subject := lit "Reset your " ++ PRODUCT_NAME ++ lit " password"
        heading := lit "Reset your password"
        greeting name := lit "Hi " ++ name ++ lit ","
        greetingAnonymous := lit "Hi,"
        lead := lit "Someone asked to reset the password of your " ++ PRODUCT_NAME ++
          lit " account. Open the link below to choose a new one."
        action := lit "Choose a new password"
        expiry hours :=
          if hours = 1 then lit "The link works for one hour and can be used once."
          else lit "The link works for " ++ formats.numberText hours ++ lit " hours and can be used once."
        closing := lit "If you did not ask for this, you can ignore this email: your password stays as it is." }
      invitation := {
        subject workspaceName := lit "You have been invited to join " ++ workspaceName ++ lit " on " ++ PRODUCT_NAME
        heading workspaceName := lit "Join " ++ workspaceName
        lead inviterName workspaceName :=
          inviterName ++ lit " invited you to join the workspace \"" ++ workspaceName ++ lit "\" on " ++
            PRODUCT_NAME ++ lit "."
        leadAnonymous workspaceName :=
          lit "You have been invited to join the workspace \"" ++ workspaceName ++ lit "\" on " ++ PRODUCT_NAME ++ lit "."
        action := lit "View invitation"
        note := lit "Sign in with this email address and confirm it first — an invitation can only be accepted from a confirmed address."
        closing := lit "If you were not expecting this invitation, you can ignore this email." }
      notificationFooter := lit "You receive this email because notification email is switched on for your " ++
        PRODUCT_NAME ++ lit " account. You can turn it off under Settings."
      assignment := {
        subject title := lit "You were assigned to \"" ++ title ++ lit "\""
        heading := lit "You have a new assignment"
        lead actorName title workspaceName :=
          actorName ++ lit " assigned you to the card \"" ++ title ++ lit "\" in the workspace \"" ++
            workspaceName ++ lit "\"."
        leadAnonymous title workspaceName :=
          lit "You were assigned to the card \"" ++ title ++ lit "\" in the workspace \"" ++ workspaceName ++ lit "\"."
        action := lit "Open the card" }
      mention := {
        subject title := lit "You were mentioned on \"" ++ title ++ lit "\""
        heading := lit "Someone mentioned you"
        lead actorName title workspaceName :=
          actorName ++ lit " mentioned you in a comment on the card \"" ++ title ++ lit "\" in the workspace \"" ++
            workspaceName ++ lit "\"."
        leadAnonymous title workspaceName :=
          lit "You were mentioned in a comment on the card \"" ++ title ++ lit "\" in the workspace \"" ++
            workspaceName ++ lit "\"."
        action := lit "Open the comment" }
      dueSoon := {
        subject title := lit "\"" ++ title ++ lit "\" is due soon"
        heading := lit "A card is due soon"
        lead title workspaceName dueDate :=
          lit "The card \"" ++ title ++ lit "\" in the workspace \"" ++ workspaceName ++ lit "\" is due on " ++
            dueDate ++ lit "."
        action := lit "Open the card" } }
  | .tr => {
      linkFallback := lit "Buton çalışmıyorsa bu bağlantıyı tarayıcınıza yapıştırın:"
      verification := {
        subject := PRODUCT_NAME ++ lit " için e-posta adresinizi doğrulayın"
        heading := lit "E-posta adresinizi doğrulayın"
        greeting name := lit "Merhaba " ++ name ++ lit ","
        greetingAnonymous := lit "Merhaba,"
        lead := PRODUCT_NAME ++ lit " hesabınızı tamamlamak için bu adresi doğrulayın. Bir workspace davetini kabul edebilmeniz için adresinizin doğrulanmış olması gerekiyor."
        action := lit "E-posta adresini doğrula"
        closing := lit "Bu hesabı siz oluşturmadıysanız bu e-postayı yok sayabilirsiniz." }
      passwordReset := {
        subject := PRODUCT_NAME ++ lit " parolanızı sıfırlayın"
        heading := lit "Parolanızı sıfırlayın"
        greeting name := lit "Merhaba " ++ name ++ lit ","
        greetingAnonymous := lit "Merhaba,"
        lead := PRODUCT_NAME ++ lit " hesabınızın parolasını sıfırlamak için bir istek geldi. Yeni bir parola seçmek için aşağıdaki bağlantıyı açın."
        action := lit "Yeni parola seç"
        expiry hours :=
          if hours = 1 then lit "Bağlantı bir saat geçerlidir ve yalnızca bir kez kullanılabilir."
          else lit "Bağlantı " ++ formats.numberText hours ++ lit " saat geçerlidir ve yalnızca bir kez kullanılabilir."
        closing := lit "Bu isteği siz yapmadıysanız bu e-postayı yok sayabilirsiniz: parolanız olduğu gibi kalır." }
      invitation := {
        subject workspaceName := PRODUCT_NAME ++ lit "'da " ++ workspaceName ++ lit " workspace'ine davet edildiniz"
        heading workspaceName := workspaceName ++ lit " workspace'ine katılın"
        lead inviterName workspaceName :=
          inviterName ++ lit ", sizi " ++ PRODUCT_NAME ++ lit "'daki \"" ++ workspaceName ++
            lit "\" workspace'ine davet etti."
        leadAnonymous workspaceName :=
          PRODUCT_NAME ++ lit "'daki \"" ++ workspaceName ++ lit "\" workspace'ine davet edildiniz."
        action := lit "Daveti görüntüle"
        note := lit "Önce bu e-posta adresiyle giriş yapın ve adresi doğrulayın — bir davet yalnızca doğrulanmış bir adresten kabul edilebilir."
        closing := lit "Böyle bir davet beklemiyorsanız bu e-postayı yok sayabilirsiniz." }
      notificationFooter := lit "Bu e-postayı, " ++ PRODUCT_NAME ++
        lit " hesabınızda bildirim e-postaları açık olduğu için alıyorsunuz. Ayarlar sayfasından kapatabilirsiniz."
      assignment := {
        subject title := lit "\"" ++ title ++ lit "\" kartına atandınız"
        heading := lit "Yeni bir atamanız var"
        lead actorName title workspaceName :=
          actorName ++ lit ", sizi \"" ++ workspaceName ++ lit "\" workspace'indeki \"" ++ title ++ lit "\" kartına atadı."
        leadAnonymous title workspaceName :=
          lit "\"" ++ workspaceName ++ lit "\" workspace'indeki \"" ++ title ++ lit "\" kartına atandınız."
        action := lit "Kartı aç" }
      mention := {
        subject title := lit "\"" ++ title ++ lit "\" kartında sizden bahsedildi"
        heading := lit "Biri sizden bahsetti"
        lead actorName title workspaceName :=
          actorName ++ lit ", \"" ++ workspaceName ++ lit "\" workspace'indeki \"" ++ title ++
            lit "\" kartına yazdığı yorumda sizden bahsetti."
        leadAnonymous title workspaceName :=
          lit "\"" ++ workspaceName ++ lit "\" workspace'indeki \"" ++ title ++
            lit "\" kartına yazılan bir yorumda sizden bahsedildi."
        action := lit "Yorumu aç" }
      dueSoon := {
        subject title := lit "\"" ++ title ++ lit "\" kartının süresi yaklaşıyor"
        heading := lit "Bir kartın süresi yaklaşıyor"
        lead title workspaceName dueDate :=
          lit "\"" ++ workspaceName ++ lit "\" workspace'indeki \"" ++ title ++ lit "\" kartının son tarihi " ++
            dueDate ++ lit "."
        action := lit "Kartı aç" } }

/-- Every locale there is has its copy; an unknown tag does not get this far. -/
def copyFor (formats : Formats) (locale : Locale) : MailCopy := MAIL_COPY formats locale

structure Mail where
  to_ : Text
  subject : Text
  text : Text
  html : Text

def joinLines (lines : List Text) : Text := ['\n'].intercalate lines

def paragraph (sentence : Text) : Text := lit "<p>" ++ escapeHtml sentence ++ lit "</p>"

section Builders

variable (formats : Formats)

structure VerificationEmailParams where
  to_ : Text
  name : Text
  verificationUrl : Text
  locale : Locale

def buildVerificationEmail (params : VerificationEmailParams) : Mail :=
  let copy := (copyFor formats params.locale).verification
  let name := singleLine params.name
  let greeting := if name = [] then copy.greetingAnonymous else copy.greeting name
  { to_ := params.to_
    subject := singleLine copy.subject
    text := joinLines [greeting, [], copy.lead, [], params.verificationUrl, [], copy.closing]
    html := htmlDocument copy.heading
      (paragraph greeting ++ paragraph copy.lead ++
        actionHtml copy.action params.verificationUrl (copyFor formats params.locale).linkFallback ++
        paragraph copy.closing) }

structure PasswordResetEmailParams where
  to_ : Text
  name : Text
  resetUrl : Text
  expiresInHours : ℚ
  locale : Locale

def buildPasswordResetEmail (params : PasswordResetEmailParams) : Mail :=
  let copy := (copyFor formats params.locale).passwordReset
  let name := singleLine params.name
  let greeting := if name = [] then copy.greetingAnonymous else copy.greeting name
  let expiry := copy.expiry params.expiresInHours
  { to_ := params.to_
    subject := singleLine copy.subject
    text := joinLines [greeting, [], copy.lead, [], params.resetUrl, [], expiry, [], copy.closing]
    html := htmlDocument copy.heading
      (paragraph greeting ++ paragraph copy.lead ++
        actionHtml copy.action params.resetUrl (copyFor formats params.locale).linkFallback ++
        (paragraph expiry ++ paragraph copy.closing)) }

structure InvitationEmailParams where
  to_ : Text
  inviterName : Text
  workspaceName : Text
  acceptUrl : Text
  locale : Locale

def buildInvitationEmail (params : InvitationEmailParams) : Mail :=
  let copy := (copyFor formats params.locale).invitation
  let workspaceName := singleLine params.workspaceName
  let inviterName := singleLine params.inviterName
  let lead := if inviterName = [] then copy.leadAnonymous workspaceName else copy.lead inviterName workspaceName
  { to_ := params.to_
    subject := singleLine (copy.subject workspaceName)
    text := joinLines [lead, [], params.acceptUrl, [], copy.note, [], copy.closing]
    html := htmlDocument (copy.heading workspaceName)
      (paragraph lead ++ actionHtml copy.action params.acceptUrl (copyFor formats params.locale).linkFallback ++
        (paragraph copy.note ++ paragraph copy.closing)) }

def notificationEmail (to_ taskUrl : Text) (locale : Locale) (subject heading action lead : Text) : Mail :=
  let shared := copyFor formats locale
  { to_
    subject := singleLine subject
    text := joinLines [lead, [], taskUrl, [], shared.notificationFooter]
    html := htmlDocument heading
      (paragraph lead ++ actionHtml action taskUrl shared.linkFallback ++
        (lit "<p style=\"font-size:12px;color:#666\">" ++ escapeHtml shared.notificationFooter ++ lit "</p>")) }

structure ActorNotificationEmailParams where
  to_ : Text
  actorName : Text
  taskTitle : Text
  workspaceName : Text
  taskUrl : Text
  locale : Locale

/-- Assignments and mentions differ in their copy alone. -/
def actorEmail (copy : ActorCopy) (params : ActorNotificationEmailParams) : Mail :=
  let title := singleLine params.taskTitle
  let workspaceName := singleLine params.workspaceName
  let actorName := singleLine params.actorName
  let lead := if actorName = [] then copy.leadAnonymous title workspaceName else copy.lead actorName title workspaceName
  notificationEmail formats params.to_ params.taskUrl params.locale (copy.subject title) copy.heading copy.action lead

def buildAssignmentEmail (params : ActorNotificationEmailParams) : Mail :=
  actorEmail formats (copyFor formats params.locale).assignment params

def buildMentionEmail (params : ActorNotificationEmailParams) : Mail :=
  actorEmail formats (copyFor formats params.locale).mention params

structure DueSoonEmailParams where
  to_ : Text
  taskTitle : Text
  workspaceName : Text
  dueDate : DateTime
  taskUrl : Text
  locale : Locale

def buildDueSoonEmail (params : DueSoonEmailParams) : Mail :=
  let copy := (copyFor formats params.locale).dueSoon
  let title := singleLine params.taskTitle
  let workspaceName := singleLine params.workspaceName
  let lead := copy.lead title workspaceName (formats.formatDueDate params.dueDate params.locale)
  notificationEmail formats params.to_ params.taskUrl params.locale (copy.subject title) copy.heading copy.action lead

end Builders

/-- One of the builders, with all it is given but the names. -/
inductive Builder where
  | verification (to_ verificationUrl : Text) (locale : Locale)
  | passwordReset (to_ resetUrl : Text) (expiresInHours : ℚ) (locale : Locale)
  | invitation (to_ acceptUrl : Text) (locale : Locale)
  | assignment (to_ taskUrl : Text) (locale : Locale)
  | mention (to_ taskUrl : Text) (locale : Locale)
  | dueSoon (to_ taskUrl : Text) (dueDate : DateTime) (locale : Locale)

/-- What users chose. -/
structure Names where
  displayName : Text
  taskTitle : Text
  workspaceName : Text

def build (formats : Formats) (names : Names) : Builder → Mail
  | .verification to_ verificationUrl locale =>
      buildVerificationEmail formats { to_, name := names.displayName, verificationUrl, locale }
  | .passwordReset to_ resetUrl expiresInHours locale =>
      buildPasswordResetEmail formats { to_, name := names.displayName, resetUrl, expiresInHours, locale }
  | .invitation to_ acceptUrl locale =>
      buildInvitationEmail formats
        { to_, inviterName := names.displayName, workspaceName := names.workspaceName, acceptUrl, locale }
  | .assignment to_ taskUrl locale =>
      buildAssignmentEmail formats
        { to_, actorName := names.displayName, taskTitle := names.taskTitle, workspaceName := names.workspaceName,
          taskUrl, locale }
  | .mention to_ taskUrl locale =>
      buildMentionEmail formats
        { to_, actorName := names.displayName, taskTitle := names.taskTitle, workspaceName := names.workspaceName,
          taskUrl, locale }
  | .dueSoon to_ taskUrl dueDate locale =>
      buildDueSoonEmail formats
        { to_, taskTitle := names.taskTitle, workspaceName := names.workspaceName, dueDate, taskUrl, locale }

/-- What an e-mail says and where: the sentences before and after its action. The last may be in small print. -/
structure Layout where
  subject : Text
  heading : Text
  before : List Text
  action : Text
  url : Text
  linkFallback : Text
  after : List (List (Text × Text) × Text)

def documentStyle : Text := lit "font-family:system-ui,-apple-system,Segoe UI,sans-serif;line-height:1.5;color:#111"

def headingStyle : Text := lit "font-size:20px;margin:0 0 16px"

def actionStyle : Text :=
  lit "display:inline-block;padding:10px 16px;background:#111;color:#fff;border-radius:6px;text-decoration:none"

def footerStyle : Text := lit "font-size:12px;color:#666;margin-top:24px"

def smallPrint : List (Text × Text) := [(lit "style", lit "font-size:12px;color:#666")]

section Layouts

open Encoding.Html

def textPiece (value : Text) : List Piece := if value = [] then [] else [.text value]

def sentencePieces (sentence : List (Text × Text) × Text) : List Piece :=
  .open_ (lit "p") sentence.1 :: textPiece sentence.2 ++ [.close (lit "p")]

def actionPieces (action url linkFallback : Text) : List Piece :=
  .open_ (lit "p") [] ::
  .open_ (lit "a") [(lit "href", url), (lit "style", actionStyle)] ::
  textPiece action ++ .close (lit "a") :: .close (lit "p") ::
  .open_ (lit "p") smallPrint :: textPiece linkFallback ++ .open_ (lit "br") [] :: textPiece url ++ [.close (lit "p")]

def Layout.pieces (layout : Layout) : List Piece :=
  .open_ (lit "div") [(lit "style", documentStyle)] ::
  .open_ (lit "h1") [(lit "style", headingStyle)] :: textPiece layout.heading ++ .close (lit "h1") ::
  layout.before.flatMap (fun sentence => sentencePieces ([], sentence)) ++
  actionPieces layout.action layout.url layout.linkFallback ++ layout.after.flatMap sentencePieces ++
  sentencePieces ([(lit "style", footerStyle)], PRODUCT_NAME) ++ [.close (lit "div")]

/-- The lines of the plain text, with an empty one between two of them. -/
def Layout.lines (layout : Layout) : List Text := layout.before ++ layout.url :: layout.after.map Prod.snd

def Layout.mail (to_ : Text) (layout : Layout) : Mail where
  to_
  subject := singleLine layout.subject
  text := joinLines (layout.lines.intersperse [])
  html := layout.pieces.flatMap Piece.render

def notificationLayout (formats : Formats) (url : Text) (locale : Locale) (subject heading action lead : Text) :
    Layout where
  subject
  heading
  before := [lead]
  action
  url
  linkFallback := (copyFor formats locale).linkFallback
  after := [(smallPrint, (copyFor formats locale).notificationFooter)]

def actorLayout (formats : Formats) (copy : ActorCopy) (url : Text) (locale : Locale) (names : Names) : Layout :=
  let title := singleLine names.taskTitle
  let workspaceName := singleLine names.workspaceName
  let actorName := singleLine names.displayName
  notificationLayout formats url locale (copy.subject title) copy.heading copy.action
    (if actorName = [] then copy.leadAnonymous title workspaceName else copy.lead actorName title workspaceName)

def greetingOf (copy : VerificationCopy) (name : Text) : Text :=
  if singleLine name = [] then copy.greetingAnonymous else copy.greeting (singleLine name)

def layout (formats : Formats) (names : Names) : Builder → Layout
  | .verification _ url locale =>
      let copy := copyFor formats locale
      { subject := copy.verification.subject, heading := copy.verification.heading
        before := [greetingOf copy.verification names.displayName, copy.verification.lead]
        action := copy.verification.action, url, linkFallback := copy.linkFallback
        after := [([], copy.verification.closing)] }
  | .passwordReset _ url hours locale =>
      let copy := copyFor formats locale
      { subject := copy.passwordReset.subject, heading := copy.passwordReset.heading
        before := [greetingOf copy.passwordReset.toVerificationCopy names.displayName, copy.passwordReset.lead]
        action := copy.passwordReset.action, url, linkFallback := copy.linkFallback
        after := [([], copy.passwordReset.expiry hours), ([], copy.passwordReset.closing)] }
  | .invitation _ url locale =>
      let copy := copyFor formats locale
      let workspaceName := singleLine names.workspaceName
      let inviterName := singleLine names.displayName
      { subject := copy.invitation.subject workspaceName, heading := copy.invitation.heading workspaceName
        before := [if inviterName = [] then copy.invitation.leadAnonymous workspaceName
          else copy.invitation.lead inviterName workspaceName]
        action := copy.invitation.action, url, linkFallback := copy.linkFallback
        after := [([], copy.invitation.note), ([], copy.invitation.closing)] }
  | .assignment _ url locale => actorLayout formats (copyFor formats locale).assignment url locale names
  | .mention _ url locale => actorLayout formats (copyFor formats locale).mention url locale names
  | .dueSoon _ url dueDate locale =>
      let copy := (copyFor formats locale).dueSoon
      notificationLayout formats url locale (copy.subject (singleLine names.taskTitle)) copy.heading copy.action
        (copy.lead (singleLine names.taskTitle) (singleLine names.workspaceName) (formats.formatDueDate dueDate locale))

def Builder.to_ : Builder → Text
  | .verification to_ _ _ | .passwordReset to_ _ _ _ | .invitation to_ _ _ | .assignment to_ _ _ | .mention to_ _ _
  | .dueSoon to_ _ _ _ => to_

/-- Literals are taken apart with this; evaluating `toList` on them takes long. -/
theorem lit_ofList (chars : List Char) : lit (String.ofList chars) = chars := String.toList_ofList

theorem escapeHtml_eq (value : Text) : escapeHtml value = escape value := by
  unfold escapeHtml replaceAll escape
  simp only [List.flatMap_assoc]
  refine List.flatMap_congr fun c _ => ?_
  by_cases amp : c = '&'
  · subst amp; decide
  · by_cases lt : c = '<'
    · subst lt; decide
    · by_cases gt : c = '>'
      · subst gt; decide
      · by_cases quot : c = '"'
        · subst quot; decide
        · by_cases apostrophe : c = '\''
          · subst apostrophe; decide
          · simp [escapeChar, amp, lt, gt, quot, apostrophe]

theorem render_textPiece (value : Text) : (textPiece value).flatMap Piece.render = escapeHtml value := by
  unfold textPiece
  by_cases empty : value = []
  · subst empty
    rfl
  · rw [if_neg empty, escapeHtml_eq]
    simp [Piece.render]

theorem render_sentence (sentence : Text) :
    (sentencePieces ([], sentence)).flatMap Piece.render = paragraph sentence := by
  have opened : Piece.render (.open_ (lit "p") []) = lit "<p>" := by decide
  have closed : Piece.render (.close (lit "p")) = lit "</p>" := by decide
  simp [sentencePieces, paragraph, render_textPiece, opened, closed]

theorem render_smallPrint (sentence : Text) : (sentencePieces (smallPrint, sentence)).flatMap Piece.render =
    lit "<p style=\"font-size:12px;color:#666\">" ++ escapeHtml sentence ++ lit "</p>" := by
  have opened : Piece.render (.open_ (lit "p") smallPrint) = lit "<p style=\"font-size:12px;color:#666\">" := by
    rw [smallPrint, lit_ofList, lit_ofList, lit_ofList, lit_ofList]
    decide +kernel
  have closed : Piece.render (.close (lit "p")) = lit "</p>" := by decide
  simp [sentencePieces, render_textPiece, opened, closed]

theorem render_action (action url linkFallback : Text) :
    (actionPieces action url linkFallback).flatMap Piece.render = actionHtml action url linkFallback := by
  have opened : Piece.render (.open_ (lit "p") []) ++ (['<', 'a', ' ', 'h', 'r', 'e', 'f', '=', '"'] : Text) =
      lit "<p><a href=\"" := by decide
  have style : '"' :: (Piece.renderAttribute (lit "style", actionStyle) ++ ['>']) =
      lit "\" style=\"display:inline-block;padding:10px 16px;" ++
        lit "background:#111;color:#fff;border-radius:6px;text-decoration:none\">" := by
    rw [actionStyle, lit_ofList, lit_ofList, lit_ofList, lit_ofList]
    decide +kernel
  have linked : Piece.render (.open_ (lit "a") [(lit "href", url), (lit "style", actionStyle)]) =
      ['<', 'a', ' ', 'h', 'r', 'e', 'f', '=', '"'] ++
        (escape url ++ '"' :: (Piece.renderAttribute (lit "style", actionStyle) ++ ['>'])) := by
    have a : lit "a" = ['a'] := by decide
    have href : lit "href" = ['h', 'r', 'e', 'f'] := by decide
    simp [Piece.render, Piece.renderAttribute, a, href]
  have closed : Piece.render (.close (lit "a")) ++ Piece.render (.close (lit "p")) = lit "</a></p>" := by decide
  have small : Piece.render (.open_ (lit "p") smallPrint) = lit "<p style=\"font-size:12px;color:#666\">" := by
    rw [smallPrint, lit_ofList, lit_ofList, lit_ofList, lit_ofList]
    decide +kernel
  have break_ : Piece.render (.open_ (lit "br") []) = lit "<br>" := by decide
  have ended : Piece.render (.close (lit "p")) = lit "</p>" := by decide
  have html : actionHtml action url linkFallback =
      lit "<p><a href=\"" ++ escapeHtml url ++ (lit "\" style=\"display:inline-block;padding:10px 16px;" ++
        lit "background:#111;color:#fff;border-radius:6px;text-decoration:none\">") ++ escapeHtml action ++
        lit "</a></p>" ++
        (lit "<p style=\"font-size:12px;color:#666\">" ++ escapeHtml linkFallback ++ lit "<br>" ++ escapeHtml url ++
          lit "</p>") := by
    simp only [actionHtml, List.append_assoc]
  rw [html, ← opened, ← style, ← closed, ← small, ← break_, ← ended, escapeHtml_eq url]
  simp only [actionPieces, List.flatMap_cons, List.flatMap_append, List.flatMap_nil, render_textPiece, linked,
    List.append_assoc, List.cons_append, List.append_nil, escapeHtml_eq url]

theorem render_layout (layout : Layout) :
    layout.pieces.flatMap Piece.render = htmlDocument layout.heading
      (layout.before.flatMap paragraph ++ actionHtml layout.action layout.url layout.linkFallback ++
        (layout.after.flatMap sentencePieces).flatMap Piece.render) := by
  have opened : Piece.render (.open_ (lit "div") [(lit "style", documentStyle)]) =
      lit "<div style=\"font-family:system-ui,-apple-system,Segoe UI,sans-serif;line-height:1.5;color:#111\">" := by
    rw [documentStyle, lit_ofList, lit_ofList, lit_ofList, lit_ofList]
    decide +kernel
  have heading : Piece.render (.open_ (lit "h1") [(lit "style", headingStyle)]) =
      lit "<h1 style=\"font-size:20px;margin:0 0 16px\">" := by
    rw [headingStyle, lit_ofList, lit_ofList, lit_ofList, lit_ofList]
    decide +kernel
  have headed : Piece.render (.close (lit "h1")) = lit "</h1>" := by decide
  have footer : Piece.render (.open_ (lit "p") [(lit "style", footerStyle)]) =
      lit "<p style=\"font-size:12px;color:#666;margin-top:24px\">" := by
    rw [footerStyle, lit_ofList, lit_ofList, lit_ofList, lit_ofList]
    decide +kernel
  have ended : Piece.render (.close (lit "p")) = lit "</p>" := by decide
  have closed : Piece.render (.close (lit "div")) = lit "</div>" := by decide
  have before : (layout.before.flatMap fun sentence => sentencePieces ([], sentence)).flatMap Piece.render =
      layout.before.flatMap paragraph := by
    rw [List.flatMap_assoc]
    exact List.flatMap_congr fun sentence _ => render_sentence sentence
  have product : (sentencePieces ([(lit "style", footerStyle)], PRODUCT_NAME)).flatMap Piece.render =
      lit "<p style=\"font-size:12px;color:#666;margin-top:24px\">" ++ escapeHtml PRODUCT_NAME ++ lit "</p>" := by
    simp only [sentencePieces, List.flatMap_cons, List.flatMap_append, List.flatMap_nil, List.cons_append,
      render_textPiece, footer, ended, List.append_assoc, List.append_nil]
  simp only [Layout.pieces, htmlDocument, List.flatMap_cons, List.flatMap_append, List.flatMap_nil, render_textPiece,
    render_action, opened, heading, headed, closed, before, product, List.append_assoc, List.cons_append, List.append_nil]

/-- Each builder fills in a layout. -/
theorem build_layout (formats : Formats) (names : Names) (builder : Builder) :
    build formats names builder = (layout formats names builder).mail builder.to_ := by
  cases builder with
  | verification to_ url locale =>
      simp [build, buildVerificationEmail, layout, Layout.mail, Builder.to_, greetingOf, render_layout, Layout.lines,
        render_sentence]
  | passwordReset to_ url hours locale =>
      simp [build, buildPasswordResetEmail, layout, Layout.mail, Builder.to_, greetingOf, render_layout, Layout.lines,
        render_sentence]
  | invitation to_ url locale =>
      simp [build, buildInvitationEmail, layout, Layout.mail, Builder.to_, render_layout, Layout.lines, render_sentence]
  | assignment to_ url locale =>
      simp [build, buildAssignmentEmail, actorEmail, notificationEmail, layout, actorLayout, notificationLayout,
        Layout.mail, Builder.to_, render_layout, Layout.lines, render_smallPrint]
  | mention to_ url locale =>
      simp [build, buildMentionEmail, actorEmail, notificationEmail, layout, actorLayout, notificationLayout,
        Layout.mail, Builder.to_, render_layout, Layout.lines, render_smallPrint]
  | dueSoon to_ url dueDate locale =>
      simp [build, buildDueSoonEmail, notificationEmail, layout, notificationLayout, Layout.mail, Builder.to_,
        render_layout, Layout.lines, render_smallPrint]

section Properties

def breaks (text : Text) : Nat := text.count '\n'

theorem collapse_spaces {value : Text} {inRun : Bool} : ∀ c ∈ collapse inRun value, isTrimmed c = true → c = ' ' := by
  induction value generalizing inRun with
  | nil => simp [collapse]
  | cons first rest ih =>
      intro c member blank
      unfold collapse at member
      split_ifs at member with spaced again
      · exact ih c member blank
      · rcases List.mem_cons.mp member with same | later
        · exact same
        · exact ih c later blank
      · rcases List.mem_cons.mp member with rfl | later
        · exact absurd blank spaced
        · exact ih c later blank

/-- The only white space of a single line is the space. -/
theorem singleLine_spaces {value : Text} : ∀ c ∈ singleLine value, isTrimmed c = true → c = ' ' :=
  fun c member => collapse_spaces c (Sequence.infix_trimmed.subset member)

@[simp] theorem breaks_singleLine (value : Text) : breaks (singleLine value) = 0 :=
  List.count_eq_zero.mpr fun member => absurd (singleLine_spaces _ member (by decide)) (by decide)

@[simp] theorem breaks_append (first second : Text) : breaks (first ++ second) = breaks first + breaks second :=
  List.count_append

/-- The line breaks of a plain text are counted line by line. -/
theorem breaks_lines (lines : List Text) :
    breaks (joinLines (lines.intersperse [])) = (((lines.map breaks).intersperse 0).intersperse 1).sum := by
  have separators : breaks [] = 0 ∧ breaks ['\n'] = 1 := by decide
  have counted : ∀ texts : List Text, breaks texts.flatten = (texts.map breaks).sum := fun texts => List.count_flatten
  rw [joinLines, List.intercalate, counted, Sequence.map_intersperse, Sequence.map_intersperse, separators.1, separators.2]

theorem infix_of_mem_lines {line : Text} {lines : List Text} (member : line ∈ lines) :
    line <:+: joinLines (lines.intersperse []) :=
  List.infix_of_mem_flatten (Sequence.mem_intersperse (Sequence.mem_intersperse member))

/-- The sentences between the tags are there, and attributes have names. -/
structure Layout.Filled (layout : Layout) : Prop where
  heading : layout.heading ≠ []
  before : ∀ sentence ∈ layout.before, sentence ≠ []
  action : layout.action ≠ []
  linkFallback : layout.linkFallback ≠ []
  after : ∀ sentence ∈ layout.after, sentence.2 ≠ [] ∧ sentence.1.all (fun field => isWord field.1) = true

/-- The same but for the words. -/
structure Layout.Alike (first second : Layout) : Prop where
  url : first.url = second.url
  before : first.before.length = second.before.length
  after : first.after.map Prod.fst = second.after.map Prod.fst
  lines : first.lines.map breaks = second.lines.map breaks

theorem proper_textPiece (value : Text) {rest : List Piece} (apart : rest.head?.any Piece.isText = false) :
    proper (textPiece value ++ rest) = proper rest := by
  unfold textPiece
  by_cases empty : value = []
  · rw [if_pos empty, List.nil_append]
  · simp [empty, proper, apart]

theorem proper_textClose (value name : Text) (rest : List Piece) :
    proper (textPiece value ++ .close name :: rest) = proper (.close name :: rest) := proper_textPiece value rfl

theorem proper_textOpen (value name : Text) (attributes : List (Text × Text)) (rest : List Piece) :
    proper (textPiece value ++ .open_ name attributes :: rest) = proper (.open_ name attributes :: rest) :=
  proper_textPiece value rfl

theorem proper_sentence {sentence : List (Text × Text) × Text} (rest : List Piece)
    (named : sentence.1.all (fun field => isWord field.1) = true) :
    proper (sentencePieces sentence ++ rest) = proper rest := by
  have word : isWord (lit "p") = true := by decide
  have shape : sentencePieces sentence ++ rest =
      .open_ (lit "p") sentence.1 :: (textPiece sentence.2 ++ (.close (lit "p") :: rest)) := by simp [sentencePieces]
  rw [shape, proper, proper_textClose, proper, word, named, Bool.true_and, Bool.true_and, Bool.true_and]

theorem proper_sentences {sentences : List (List (Text × Text) × Text)} (rest : List Piece)
    (named : ∀ sentence ∈ sentences, sentence.1.all (fun field => isWord field.1) = true) :
    proper (sentences.flatMap sentencePieces ++ rest) = proper rest := by
  induction sentences with
  | nil => rfl
  | cons sentence more ih =>
      rw [List.flatMap_cons, List.append_assoc, proper_sentence _ (named sentence List.mem_cons_self),
        ih fun later member => named later (List.mem_cons_of_mem _ member)]

theorem proper_action (action url linkFallback : Text) (rest : List Piece) :
    proper (actionPieces action url linkFallback ++ rest) = proper rest := by
  have words : isWord (lit "p") = true ∧ isWord (lit "a") = true ∧ isWord (lit "br") = true ∧
      isWord (lit "href") = true ∧ isWord (lit "style") = true := by decide
  obtain ⟨p, a, br, href, style⟩ := words
  simp only [actionPieces, List.cons_append, List.append_assoc, List.nil_append, proper, proper_textClose,
    proper_textOpen, p, a, br, href, style, smallPrint, List.all_cons, List.all_nil, Bool.and_true, Bool.true_and]

/-- The sentences before the action have no attributes. -/
theorem before_sentences (before : List Text) :
    before.flatMap (fun sentence => sentencePieces ([], sentence)) =
      (before.map fun sentence => ([], sentence)).flatMap sentencePieces := by
  rw [List.flatMap_map]

theorem proper_layout {layout : Layout} (filled : layout.Filled) : proper layout.pieces = true := by
  have words : isWord (lit "div") = true ∧ isWord (lit "h1") = true ∧ isWord (lit "style") = true := by decide
  obtain ⟨div, h1, style⟩ := words
  have named : ∀ sentence ∈ layout.before.map (fun sentence => (([] : List (Text × Text)), sentence)),
      sentence.1.all (fun field => isWord field.1) = true := by
    intro sentence member
    obtain ⟨words, _, rfl⟩ := List.mem_map.mp member
    rfl
  have footer (rest : List Piece) : proper (sentencePieces ([(lit "style", footerStyle)], PRODUCT_NAME) ++ rest) =
      proper rest := proper_sentence rest (by simp [style])
  simp only [Layout.pieces, before_sentences, List.cons_append, List.append_assoc, proper,
    proper_textClose, proper_sentences _ named, proper_action,
    proper_sentences _ fun sentence member => (filled.after sentence member).2, footer, div, h1, style, List.all_cons,
      List.all_nil, Bool.and_true]

def skeletons (pieces : List Piece) : List Token := pieces.map fun piece => piece.token.skeleton

theorem skeletons_textPiece {value : Text} (some_ : value ≠ []) : skeletons (textPiece value) = [.text []] := by
  simp [textPiece, some_, skeletons, Piece.token, Token.skeleton]

theorem skeletons_sentences {first second : List (List (Text × Text) × Text)}
    (same : first.map Prod.fst = second.map Prod.fst) (firstFilled : ∀ sentence ∈ first, sentence.2 ≠ [])
    (secondFilled : ∀ sentence ∈ second, sentence.2 ≠ []) :
    skeletons (first.flatMap sentencePieces) = skeletons (second.flatMap sentencePieces) := by
  induction first generalizing second with
  | nil =>
      cases second with
      | nil => rfl
      | cons _ _ => cases same
  | cons sentence more ih =>
      cases second with
      | nil => cases same
      | cons other others =>
          obtain ⟨attributes, same⟩ := List.cons.inj same
          have here := skeletons_textPiece (firstFilled sentence List.mem_cons_self)
          have there := skeletons_textPiece (secondFilled other List.mem_cons_self)
          have later := ih same (fun s member => firstFilled s (List.mem_cons_of_mem _ member))
            fun s member => secondFilled s (List.mem_cons_of_mem _ member)
          unfold skeletons at here there later ⊢
          simp only [List.flatMap_cons, sentencePieces, List.map_append, List.map_cons, here, there, later, attributes]

theorem skeletons_alike {first second : Layout} (alike : first.Alike second) (firstFilled : first.Filled)
    (secondFilled : second.Filled) : skeletons first.pieces = skeletons second.pieces := by
  have before : skeletons (first.before.flatMap fun sentence => sentencePieces ([], sentence)) =
      skeletons (second.before.flatMap fun sentence => sentencePieces ([], sentence)) := by
    rw [before_sentences, before_sentences]
    refine skeletons_sentences ?_ ?_ ?_
    · simp [Function.comp_def, List.map_const', alike.before]
    · simpa using firstFilled.before
    · simpa using secondFilled.before
  have after := skeletons_sentences alike.after (fun s member => (firstFilled.after s member).1)
    fun s member => (secondFilled.after s member).1
  have headings := (skeletons_textPiece firstFilled.heading).trans (skeletons_textPiece secondFilled.heading).symm
  have actions := (skeletons_textPiece firstFilled.action).trans (skeletons_textPiece secondFilled.action).symm
  have fallbacks := (skeletons_textPiece firstFilled.linkFallback).trans
    (skeletons_textPiece secondFilled.linkFallback).symm
  unfold skeletons at before after headings actions fallbacks ⊢
  simp only [Layout.pieces, actionPieces, List.map_append, List.map_cons, before, after, headings, actions, fallbacks,
    alike.url]

/-- What stands in the HTML alone. -/
def Layout.furniture (layout : Layout) : List Text :=
  [layout.heading, layout.action, layout.linkFallback, PRODUCT_NAME]

theorem mem_textPiece {value other : Text} : Piece.text value ∈ textPiece other → value = other := by
  unfold textPiece
  split_ifs <;> simp

theorem text_of_token {value : Text} {pieces : List Piece} (member : Token.text value ∈ pieces.map Piece.token) :
    Piece.text value ∈ pieces := by
  obtain ⟨piece, inside, same⟩ := List.mem_map.mp member
  cases piece with
  | text _ =>
      cases same
      exact inside
  | open_ _ _ => cases same
  | close _ => cases same

theorem text_of_pieces {layout : Layout} {value : Text} (member : Piece.text value ∈ layout.pieces) :
    value ∈ layout.lines ∨ value ∈ layout.furniture := by
  simp only [Layout.pieces, actionPieces, sentencePieces, List.mem_append, List.mem_cons, List.mem_flatMap,
    reduceCtorEq, List.not_mem_nil, false_or, or_false] at member
  simp only [Layout.lines, Layout.furniture, List.mem_append, List.mem_cons, List.not_mem_nil, or_false, List.mem_map]
  rcases member with (((heading | ⟨_, before, here⟩) | (action | fallback) | url) | ⟨sentence, after, here⟩) | product
  · exact Or.inr (Or.inl (mem_textPiece heading))
  · exact Or.inl (Or.inl (mem_textPiece here ▸ before))
  · exact Or.inr (Or.inr (Or.inl (mem_textPiece action)))
  · exact Or.inr (Or.inr (Or.inr (Or.inl (mem_textPiece fallback))))
  · exact Or.inl (Or.inr (Or.inl (mem_textPiece url)))
  · exact Or.inl (Or.inr (Or.inr ⟨sentence, after, (mem_textPiece here).symm⟩))
  · exact Or.inr (Or.inr (Or.inr (Or.inr (mem_textPiece product))))

end Properties

section Copies

/-- Words with no line break among them. -/
structure Plain (text : Text) : Prop where
  some_ : text ≠ []
  clear : breaks text = 0

namespace Plain

variable {first second : Text}

theorem lit (c : Char) (chars : List Char) (clear : breaks (c :: chars) = 0) :
    Plain (MailTemplates.lit (String.ofList (c :: chars))) := by
  rw [lit_ofList]
  exact ⟨List.cons_ne_nil c chars, clear⟩

theorem append (before : Plain first) (after : Plain second) : Plain (first ++ second) :=
  ⟨List.append_ne_nil_of_left_ne_nil before.some_ _, by rw [breaks_append, before.clear, after.clear]⟩

theorem append_name (before : Plain first) (clear : breaks second = 0) : Plain (first ++ second) :=
  ⟨List.append_ne_nil_of_left_ne_nil before.some_ _, by rw [breaks_append, before.clear, clear]⟩

theorem name_append (clear : breaks first = 0) (after : Plain second) : Plain (first ++ second) :=
  ⟨List.append_ne_nil_of_right_ne_nil _ after.some_, by rw [breaks_append, clear, after.clear]⟩

end Plain

structure VerificationCopy.Sound (copy : VerificationCopy) : Prop where
  heading : Plain copy.heading
  greeting : ∀ name, breaks name = 0 → Plain (copy.greeting name)
  greetingAnonymous : Plain copy.greetingAnonymous
  lead : Plain copy.lead
  action : Plain copy.action
  closing : Plain copy.closing

structure InvitationCopy.Sound (copy : InvitationCopy) : Prop where
  heading : ∀ workspaceName, breaks workspaceName = 0 → Plain (copy.heading workspaceName)
  lead : ∀ inviterName workspaceName, breaks inviterName = 0 → breaks workspaceName = 0 →
    Plain (copy.lead inviterName workspaceName)
  leadAnonymous : ∀ workspaceName, breaks workspaceName = 0 → Plain (copy.leadAnonymous workspaceName)
  action : Plain copy.action
  note : Plain copy.note
  closing : Plain copy.closing

structure ActorCopy.Sound (copy : ActorCopy) : Prop where
  heading : Plain copy.heading
  lead : ∀ actorName title workspaceName, breaks actorName = 0 → breaks title = 0 → breaks workspaceName = 0 →
    Plain (copy.lead actorName title workspaceName)
  leadAnonymous : ∀ title workspaceName, breaks title = 0 → breaks workspaceName = 0 →
    Plain (copy.leadAnonymous title workspaceName)
  action : Plain copy.action

/-- No sentence of a copy is empty, and none breaks a line but for a number or a day that does. -/
structure MailCopy.Sound (copy : MailCopy) : Prop where
  linkFallback : Plain copy.linkFallback
  verification : copy.verification.Sound
  passwordReset : copy.passwordReset.toVerificationCopy.Sound
  expiry : ∀ hours, copy.passwordReset.expiry hours ≠ []
  invitation : copy.invitation.Sound
  notificationFooter : Plain copy.notificationFooter
  assignment : copy.assignment.Sound
  mention : copy.mention.Sound
  dueSoonHeading : Plain copy.dueSoon.heading
  dueSoonLead : ∀ title workspaceName dueDate, breaks title = 0 → breaks workspaceName = 0 →
    copy.dueSoon.lead title workspaceName dueDate ≠ [] ∧
      breaks (copy.dueSoon.lead title workspaceName dueDate) = breaks dueDate
  dueSoonAction : Plain copy.dueSoon.action

variable (formats : Formats)

theorem en_sound : (MAIL_COPY formats .en).Sound := by
  constructor
  case expiry =>
    intro hours
    dsimp only [MAIL_COPY]
    split_ifs
    · exact (Plain.lit _ _ (by decide +kernel)).some_
    · exact List.append_ne_nil_of_right_ne_nil _ (Plain.lit _ _ (by decide +kernel)).some_
  case dueSoonLead =>
    intro title workspaceName dueDate titled named
    have first : breaks (lit "The card \"") = 0 := (Plain.lit _ _ (by decide +kernel)).clear
    have second : breaks (lit "\" in the workspace \"") = 0 := (Plain.lit _ _ (by decide +kernel)).clear
    have third : breaks (lit "\" is due on ") = 0 := (Plain.lit _ _ (by decide +kernel)).clear
    have last : breaks (lit ".") = 0 := (Plain.lit _ _ (by decide +kernel)).clear
    dsimp only [MAIL_COPY]
    refine ⟨List.append_ne_nil_of_right_ne_nil _ (Plain.lit _ _ (by decide +kernel)).some_, ?_⟩
    simp only [breaks_append, first, second, third, last, titled, named, Nat.zero_add, Nat.add_zero]
  all_goals
    try refine VerificationCopy.Sound.mk ?_ ?_ ?_ ?_ ?_ ?_
    try refine InvitationCopy.Sound.mk ?_ ?_ ?_ ?_ ?_ ?_
    try refine ActorCopy.Sound.mk ?_ ?_ ?_ ?_
  all_goals
    intros
    dsimp only [MAIL_COPY]
    repeat' first
      | assumption
      | with_reducible refine Plain.append_name ?_ (by assumption)
      | with_reducible refine Plain.name_append (by assumption) ?_
      | with_reducible refine Plain.append ?_ ?_
      | exact Plain.lit _ _ (by decide +kernel)

set_option maxRecDepth 2000 in
theorem tr_sound : (MAIL_COPY formats .tr).Sound := by
  constructor
  case expiry =>
    intro hours
    dsimp only [MAIL_COPY]
    split_ifs
    · exact (Plain.lit _ _ (by decide +kernel)).some_
    · exact List.append_ne_nil_of_right_ne_nil _ (Plain.lit _ _ (by decide +kernel)).some_
  case dueSoonLead =>
    intro title workspaceName dueDate titled named
    have first : breaks (lit "\"") = 0 := (Plain.lit _ _ (by decide +kernel)).clear
    have second : breaks (lit "\" workspace'indeki \"") = 0 := (Plain.lit _ _ (by decide +kernel)).clear
    have third : breaks (lit "\" kartının son tarihi ") = 0 := (Plain.lit _ _ (by decide +kernel)).clear
    have last : breaks (lit ".") = 0 := (Plain.lit _ _ (by decide +kernel)).clear
    dsimp only [MAIL_COPY]
    refine ⟨List.append_ne_nil_of_right_ne_nil _ (Plain.lit _ _ (by decide +kernel)).some_, ?_⟩
    simp only [breaks_append, first, second, third, last, titled, named, Nat.zero_add, Nat.add_zero]
  all_goals
    try refine VerificationCopy.Sound.mk ?_ ?_ ?_ ?_ ?_ ?_
    try refine InvitationCopy.Sound.mk ?_ ?_ ?_ ?_ ?_ ?_
    try refine ActorCopy.Sound.mk ?_ ?_ ?_ ?_
  all_goals
    intros
    dsimp only [MAIL_COPY]
    repeat' first
      | assumption
      | with_reducible refine Plain.append_name ?_ (by assumption)
      | with_reducible refine Plain.name_append (by assumption) ?_
      | with_reducible refine Plain.append ?_ ?_
      | exact Plain.lit _ _ (by decide +kernel)

theorem copyFor_sound (locale : Locale) : (copyFor formats locale).Sound := by
  cases locale with
  | en => exact en_sound formats
  | tr => exact tr_sound formats

variable (names : Names)

theorem notification_filled {url subject heading action lead : Text} (locale : Locale) (headed : heading ≠ [])
    (acts : action ≠ []) (leads : lead ≠ []) :
    (notificationLayout formats url locale subject heading action lead).Filled where
  heading := headed
  before := by simpa [notificationLayout] using leads
  action := acts
  linkFallback := (copyFor_sound formats locale).linkFallback.some_
  after := by
    have named : smallPrint.all (fun field => isWord field.1) = true := by decide +kernel
    rintro sentence here
    obtain rfl : sentence = (smallPrint, (copyFor formats locale).notificationFooter) := by
      simpa [notificationLayout] using here
    exact ⟨(copyFor_sound formats locale).notificationFooter.some_, named⟩

theorem greetingOf_plain {copy : VerificationCopy} (sound : copy.Sound) (name : Text) : Plain (greetingOf copy name) := by
  unfold greetingOf
  split_ifs
  · exact sound.greetingAnonymous
  · exact sound.greeting _ (breaks_singleLine name)

/-- The first sentence of an assignment or a mention. -/
theorem actorLead_plain {copy : ActorCopy} (sound : copy.Sound) :
    Plain (if singleLine names.displayName = [] then
      copy.leadAnonymous (singleLine names.taskTitle) (singleLine names.workspaceName)
    else copy.lead (singleLine names.displayName) (singleLine names.taskTitle) (singleLine names.workspaceName)) := by
  split_ifs
  · exact sound.leadAnonymous _ _ (breaks_singleLine _) (breaks_singleLine _)
  · exact sound.lead _ _ _ (breaks_singleLine _) (breaks_singleLine _) (breaks_singleLine _)

theorem invitationLead_plain {copy : InvitationCopy} (sound : copy.Sound) :
    Plain (if singleLine names.displayName = [] then copy.leadAnonymous (singleLine names.workspaceName)
    else copy.lead (singleLine names.displayName) (singleLine names.workspaceName)) := by
  split_ifs
  · exact sound.leadAnonymous _ (breaks_singleLine _)
  · exact sound.lead _ _ (breaks_singleLine _) (breaks_singleLine _)

theorem dueSoonLead_sound (locale : Locale) (dueDate : Text) :
    let lead := (copyFor formats locale).dueSoon.lead (singleLine names.taskTitle) (singleLine names.workspaceName) dueDate
    lead ≠ [] ∧ breaks lead = breaks dueDate :=
  (copyFor_sound formats locale).dueSoonLead _ _ _ (breaks_singleLine _) (breaks_singleLine _)

/-- No sentence of either language is empty, whatever the names. -/
theorem layout_filled (builder : Builder) : (layout formats names builder).Filled := by
  cases builder with
  | verification _ url locale =>
      have copy := copyFor_sound formats locale
      refine ⟨copy.verification.heading.some_, ?_, copy.verification.action.some_, copy.linkFallback.some_, ?_⟩
      · simpa [layout] using ⟨(greetingOf_plain copy.verification names.displayName).some_, copy.verification.lead.some_⟩
      · simpa [layout] using copy.verification.closing.some_
  | passwordReset _ url hours locale =>
      have copy := copyFor_sound formats locale
      refine ⟨copy.passwordReset.heading.some_, ?_, copy.passwordReset.action.some_, copy.linkFallback.some_, ?_⟩
      · simpa [layout] using ⟨(greetingOf_plain copy.passwordReset names.displayName).some_, copy.passwordReset.lead.some_⟩
      · simpa [layout] using ⟨copy.expiry hours, copy.passwordReset.closing.some_⟩
  | invitation _ url locale =>
      have copy := copyFor_sound formats locale
      refine ⟨(copy.invitation.heading _ (breaks_singleLine _)).some_, ?_, copy.invitation.action.some_,
        copy.linkFallback.some_, ?_⟩
      · rintro sentence here
        obtain rfl := List.mem_singleton.mp here
        exact (invitationLead_plain names copy.invitation).some_
      · simpa [layout] using ⟨copy.invitation.note.some_, copy.invitation.closing.some_⟩
  | assignment _ url locale =>
      have copy := (copyFor_sound formats locale).assignment
      exact notification_filled formats locale copy.heading.some_ copy.action.some_ (actorLead_plain names copy).some_
  | mention _ url locale =>
      have copy := (copyFor_sound formats locale).mention
      exact notification_filled formats locale copy.heading.some_ copy.action.some_ (actorLead_plain names copy).some_
  | dueSoon _ url dueDate locale =>
      have copy := copyFor_sound formats locale
      exact notification_filled formats locale copy.dueSoonHeading.some_ copy.dueSoonAction.some_
        (dueSoonLead_sound formats names locale _).1

theorem notification_alike {url subject other heading action first second : Text} (locale : Locale)
    (same : breaks first = breaks second) :
    (notificationLayout formats url locale subject heading action first).Alike
      (notificationLayout formats url locale other heading action second) :=
  ⟨rfl, rfl, rfl, by simp [notificationLayout, Layout.lines, same]⟩

/-- Names bring no line break with them. -/
theorem layout_alike (other : Names) (builder : Builder) :
    (layout formats names builder).Alike (layout formats other builder) := by
  cases builder with
  | verification _ url locale =>
      have copy := (copyFor_sound formats locale).verification
      refine ⟨rfl, rfl, rfl, ?_⟩
      simp [layout, Layout.lines, (greetingOf_plain copy _).clear]
  | passwordReset _ url hours locale =>
      have copy := (copyFor_sound formats locale).passwordReset
      refine ⟨rfl, rfl, rfl, ?_⟩
      simp [layout, Layout.lines, (greetingOf_plain copy _).clear]
  | invitation _ url locale =>
      have copy := (copyFor_sound formats locale).invitation
      refine ⟨rfl, rfl, rfl, ?_⟩
      simp [layout, Layout.lines, (invitationLead_plain _ copy).clear]
  | assignment _ url locale =>
      have copy := (copyFor_sound formats locale).assignment
      exact notification_alike formats locale
        ((actorLead_plain names copy).clear.trans (actorLead_plain other copy).clear.symm)
  | mention _ url locale =>
      have copy := (copyFor_sound formats locale).mention
      exact notification_alike formats locale
        ((actorLead_plain names copy).clear.trans (actorLead_plain other copy).clear.symm)
  | dueSoon _ url dueDate locale =>
      exact notification_alike formats locale
        ((dueSoonLead_sound formats names locale _).2.trans (dueSoonLead_sound formats other locale _).2.symm)

end Copies

/-- How many lines a text has. -/
def lineCount (text : Text) : Nat := breaks text + 1

/-- Names change the words of an e-mail and nothing else: its HTML has the same tags with the same attributes, each text
of it stands in the plain text or is a heading, a label or the name of the product, the plain text has as many lines,
and the subject is one line. -/
theorem names_change_words (formats : Formats) (builder : Builder) (names other : Names) :
    ∃ tokens others, tokenise (build formats names builder).html = some tokens ∧
      tokenise (build formats other builder).html = some others ∧
      tokens.map Token.skeleton = others.map Token.skeleton ∧
      (∀ value, .text value ∈ tokens →
        value <:+: (build formats names builder).text ∨ value ∈ (layout formats names builder).furniture) ∧
      lineCount (build formats names builder).text = lineCount (build formats other builder).text ∧
      ∀ c ∈ (build formats names builder).subject, isTrimmed c = true → c = ' ' := by
  have alike := layout_alike formats names other builder
  have filled := layout_filled formats names builder
  have otherFilled := layout_filled formats other builder
  rw [build_layout, build_layout]
  refine ⟨_, _, tokenise_render (proper_layout filled), tokenise_render (proper_layout otherFilled), ?_, ?_, ?_, ?_⟩
  · have same := skeletons_alike alike filled otherFilled
    simpa [skeletons, Function.comp_def] using same
  · intro value here
    exact (text_of_pieces (text_of_token here)).imp infix_of_mem_lines id
  · simp only [lineCount, Layout.mail, breaks_lines, alike.lines]
  · exact singleLine_spaces

/-- The heading stands in the HTML alone. -/
theorem heading_apart :
    let mail := build { numberText := fun _ => [], formatDueDate := fun _ _ => [] }
      { displayName := lit "Ada", taskTitle := lit "Plan", workspaceName := lit "Acme" }
      (.assignment (lit "ada@kurul.test") (lit "https://kurul.test/t/1") .en)
    ∃ tokens, tokenise mail.html = some tokens ∧ ∃ value, .text value ∈ tokens ∧ ¬ value <:+: mail.text := by
  dsimp only
  rw [build_layout]
  have filled := layout_filled { numberText := fun _ => [], formatDueDate := fun _ _ => [] }
    { displayName := lit "Ada", taskTitle := lit "Plan", workspaceName := lit "Acme" }
    (.assignment (lit "ada@kurul.test") (lit "https://kurul.test/t/1") .en)
  refine ⟨_, tokenise_render (proper_layout filled), lit "You have a new assignment", ?_, ?_⟩
  · refine List.mem_map.mpr ⟨.text (lit "You have a new assignment"), ?_, rfl⟩
    have heading : textPiece (lit "You have a new assignment") = [.text (lit "You have a new assignment")] :=
      if_neg filled.heading
    have listed : Piece.text (lit "You have a new assignment") ∈ textPiece (lit "You have a new assignment") := by
      rw [heading]
      exact List.mem_singleton_self _
    unfold Layout.pieces
    simp only [List.mem_append, List.mem_cons]
    exact Or.inl (Or.inl (Or.inl (Or.inl (Or.inl (Or.inr (Or.inr listed))))))
  · dsimp only [Layout.mail, layout, actorLayout, notificationLayout, Layout.lines, copyFor, MAIL_COPY, PRODUCT_NAME]
    simp only [List.map_cons, List.map_nil, List.singleton_append]
    repeat rw [lit_ofList]
    decide +kernel

end Layouts

end Kurul.MailTemplates
