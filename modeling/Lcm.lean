import Lcm.Safety.Renewal
import Lcm.Safety.Agreement
import Lcm.Safety.Delivery
import Lcm.Safety.Failure
import Lcm.Stream.Replay
import Lcm.Safety.Jobs
import Lcm.Safety.Enrollment
import Lcm.Safety.Enabled
import Lcm.Safety.Approval
import Lcm.Safety.Anchors
import Lcm.Stream.Push
import Lcm.Stream.Accounts
import Lcm.Safety.Statuses
import Lcm.Safety.Pages
import Lcm.Safety.Credentials
import Lcm.Safety.Succession
import Lcm.Safety.KeyChain
import Lcm.Safety.Expiry
import Lcm.Safety.Pass
import Lcm.Sdk.Identity
import Lcm.Sdk.Watch
import Lcm.Safety.Merge
import Lcm.Details
import Lcm.Sealed
import Lcm.Safety.Feeds
import Lcm.Callbacks
import Lcm.Challenges
import Lcm.Rotation
import Lcm.Names
import Lcm.Transfer.Depth
import Lcm.Safety.RoundTrip
import Lcm.Issue.DomainNames
