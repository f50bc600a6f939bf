import GameServer.Prog
import GameServer.Collection
import GameServer.Go
import GameServer.Lobby
import GameServer.LobbySound
import GameServer.LobbyReplay
import GameServer.Battle
import GameServer.BattleDelta
import GameServer.BattleSound
import GameServer.Session
import GameServer.Trace
import GameServer.Journal
import GameServer.SessionSound
import GameServer.SessionTables
import GameServer.SessionDisconnect
import GameServer.SessionPreempt
import GameServer.Idempotency
import GameServer.UserCenterExec
import GameServer.AccountAggregate
import GameServer.TokenSound
import GameServer.IdempotencySound
import GameServer.IdempotencyLocks
import GameServer.Total
import GameServer.BattleRestore
import GameServer.RoomUpdates
import GameServer.BattleConverge
import GameServer.Lease
import GameServer.LeaseRenewal
import GameServer.AccountSlot
import GameServer.SessionExpiry
import GameServer.SessionGrace
import GameServer.SessionAtomic
import GameServer.IdempotencyRules
import GameServer.LoginSound
import GameServer.PasswordSound
import GameServer.EnsurePlayer
import GameServer.LobbyRestore
import GameServer.CrashSound
import GameServer.Recovery
import GameServer.Breaker
import GameServer.BreakerProbe
import GameServer.Snowflake
import GameServer.Streaming
import GameServer.StreamPeers
import GameServer.StreamReader
import GameServer.RegistryDirectory
import GameServer.SchemaInit
import GameServer.StreamRequests
import GameServer.ClientManager
import GameServer.ManagerClients
import GameServer.ManagerRemove
import GameServer.DiscoveryConverge
import GameServer.RoomMutations
import GameServer.RoomRestarts
import GameServer.RoomRestores
import GameServer.ConnectionSessions
import GameServer.Lockstep
import GameServer.StoreAgreement
import GameServer.DirtyModel
import GameServer.DirtyTracking
import GameServer.DirtyRemovals
import GameServer.DirtyMap
import GameServer.ListNodes
import GameServer.SessionLifecycle
import GameServer.TokenBucket
import GameServer.Retry
import GameServer.Channel
import GameServer.Publisher
import GameServer.WebSocket
import GameServer.RouterReplies
import GameServer.LobbyAnswers
import GameServer.ReplaySound
import GameServer.DrawnIds
import GameServer.PasswordAccepts
import GameServer.ReserveResolves
