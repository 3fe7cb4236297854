import ShardedCache.Command.Launch
import ShardedCache.Proofs.Settings.RoundTrip

namespace ShardedCache

namespace Command.Launch

open Settings (Field Change)

end Command.Launch

end ShardedCache
