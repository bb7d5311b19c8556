import Kurul.Service

/-! Personal access tokens: minting and revoking them, and the two guards that let a
request in by one. The table holds the hash of a token, never the token. -/
namespace Kurul

open Store Prog

def PERSONAL_ACCESS_TOKEN_PREFIX : String := "kurul_pat_"
def DISPLAY_PREFIX_LENGTH : Nat := 8
def LAST_USED_WRITE_INTERVAL_MS : Int := 60000

structure MintedToken where
  plaintext : String
  hash : String
  tokenPrefix : String

/-- Over the text of 32 random bytes; `hashToken` is SHA-256 in hex. -/
def mintToken (hashToken : String → String) (secret : String) : MintedToken :=
  let plaintext := PERSONAL_ACCESS_TOKEN_PREFIX ++ secret
  { plaintext
    hash := hashToken plaintext
    tokenPrefix := .ofList (plaintext.toList.take
      (PERSONAL_ACCESS_TOKEN_PREFIX.length + DISPLAY_PREFIX_LENGTH)) }

structure CreateTokenDto where
  name : String
  expiresAt : Option DateTime := none

structure PersonalAccessTokenDto where
  id : Id
  workspaceId : Id
  userId : Id
  name : String
  tokenPrefix : String
  lastUsedAt : Option DateTime
  expiresAt : Option DateTime
  deriving DecidableEq

structure CreatedPersonalAccessTokenDto extends PersonalAccessTokenDto where
  token : String
  deriving DecidableEq

structure ResolvedToken where
  id : Id
  workspaceId : Id
  user : User
  deriving DecidableEq

namespace TokenService

def toDto (row : PersonalAccessToken) : PersonalAccessTokenDto where
  id := row.id
  workspaceId := row.workspaceId
  userId := row.userId
  name := row.name
  tokenPrefix := row.tokenPrefix
  lastUsedAt := row.lastUsedAt
  expiresAt := row.expiresAt

/-- The row and its audit row are written one after the other, in no common transaction. -/
def create (hashToken : String → String) (workspaceId userId : Id) (dto : CreateTokenDto)
    (secret : String) : Service CreatedPersonalAccessTokenDto := do
  let clock ← Service.fresh
  require (dto.expiresAt.all (clock.now < ·)) (.badRequest "expiresAt must be in the future")
  let minted := mintToken hashToken secret
  let row ← transaction do
    let given ← Service.fresh
    query (.create {
      id := given.id
      workspaceId
      userId
      name := trim dto.name
      tokenPrefix := minted.tokenPrefix
      tokenHash := minted.hash
      expiresAt := dto.expiresAt : PersonalAccessToken })
  let _ ← transaction (ActivityService.record {
    workspaceId
    userId
    type := .TokenCreated
    payload := [("tokenId", .scalar (.text row.id)), ("name", .scalar (.text row.name)),
      ("prefix", .scalar (.text row.tokenPrefix)),
      ("expiresAt", .scalar (Json.ofOption .time row.expiresAt))] })
  return { toDto row with token := minted.plaintext }

/-- Any token but a live one of the caller's in this workspace is not there. -/
def revoke (workspaceId userId tokenId : Id) : Service Unit := do
  let clock ← Service.fresh
  let count ← transaction (query (.updateMany
    (fun _ (token : PersonalAccessToken) => token.id = tokenId && token.workspaceId = workspaceId &&
      token.userId = userId && token.revokedAt.isNone)
    fun token => { token with revokedAt := some clock.now }))
  require (count ≠ 0) (.notFound "Token not found")
  let row ← found (.findFirst fun _ (token : PersonalAccessToken) => token.id = tokenId) (.database .recordNotFound)
  let _ ← transaction (ActivityService.record {
    workspaceId
    userId
    type := .TokenRevoked
    payload := [("tokenId", .scalar (.text tokenId)), ("name", .scalar (.text row.name)),
      ("prefix", .scalar (.text row.tokenPrefix))] })

/-- Every live token of the user in this workspace. -/
def revokeAllForMember (workspaceId userId : Id) : Service Nat := do
  let clock ← Service.fresh
  transaction (query (.updateMany
    (fun _ (token : PersonalAccessToken) =>
      token.workspaceId = workspaceId && token.userId = userId && token.revokedAt.isNone)
    fun token => { token with revokedAt := some clock.now }))

/-- The row of a hash, with its user. -/
def byHash (hash : String) (rows : List Row) : Option (PersonalAccessToken × User) := do
  let row ← (table rows : List PersonalAccessToken).find? (·.tokenHash = hash)
  let user ← (table rows : List User).find? (·.id = row.userId)
  return (row, user)

/-- The row still counts: neither revoked nor expired, and its owner is there. -/
def isLive (now : DateTime) (row : PersonalAccessToken) (user : User) : Bool :=
  row.revokedAt.isNone && user.deletedAt.isNone && row.expiresAt.all (now < ·)

/-- A token in steady use is stamped once a minute. -/
def stamp (now : DateTime) (row : PersonalAccessToken) : Service Unit :=
  if row.lastUsedAt.all fun last => now - last ≥ LAST_USED_WRITE_INTERVAL_MS then do
    let _ ← transaction (query (.update (fun _ (token : PersonalAccessToken) => token.id = row.id)
      fun token => { token with lastUsedAt := some now }))
  else Prog.pure ()

def resolve (hashToken : String → String) (plaintext : String) : Service (Option ResolvedToken) := do
  let clock ← Service.fresh
  let hit ← query (.read (byHash (hashToken plaintext)))
  match hit with
  | none => return none
  | some (row, user) =>
      if isLive clock.now row user then do
        stamp clock.now row
        return some { id := row.id, workspaceId := row.workspaceId, user }
      else return none

end TokenService

namespace SessionAuthGuard

/-- A request that carries a token, on a route of this workspace. -/
def authenticateToken (hashToken : String → String) (plaintext : String) (workspaceId : Id) :
    Service ResolvedToken := do
  let resolved ← TokenService.resolve hashToken plaintext
  let token ← getOrThrow resolved (.unauthorized "Authentication required")
  require (workspaceId = token.workspaceId) (.notFound "Workspace not found")
  return token

end SessionAuthGuard

namespace WorkspaceGuard

/-- The membership of the authenticated user, or a workspace that is not there. -/
def canActivate (workspaceId userId : Id) (accessToken : Option ResolvedToken) :
    Service WorkspaceMember := do
  require (accessToken.all (·.workspaceId = workspaceId)) (.notFound "Workspace not found")
  found (.findFirst fun _ (member : WorkspaceMember) =>
    member.workspaceId = workspaceId && member.userId = userId) (.notFound "Workspace not found")

end WorkspaceGuard
end Kurul
